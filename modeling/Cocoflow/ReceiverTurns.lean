import Mathlib.Data.List.Basic
import Mathlib.Data.List.Nodup
import Mathlib.Data.List.Pairwise
import Mathlib.Order.Defs.Unbundled
import Mathlib.Order.RelClasses
import Mathlib.Order.Nat
import Cocoflow.LabelledRuns
import Cocoflow.StableMultimap
import Cocoflow.TcpConnection
import Cocoflow.PacketFraming
import Cocoflow.Sequencer
import Cocoflow.SeqBoard
import Cocoflow.SeqFront
import Cocoflow.UdpSocket
import Cocoflow.UdpRouting
import Cocoflow.TcpSequencing
import Cocoflow.SeqDispatch

/-!
Turns. Receivers are numbered in the order of their requests, on a `udp` object and on a
`tcp::connected` alike. The receivers without a key are served in this order, and of those that are
entered under one key the oldest comes first, whatever is cancelled in between and in whatever mode
the object reads. Nobody is served twice, and no datagram is lost or counted twice. A receiver whose
entry was erased by the cancellation of another one waits on, and others are served before it.
-/

namespace Cocoflow.ReceiverTurns

open LabelledRuns StableMultimap TcpConnection Sequencer SeqBoard SeqFront SeqDispatch

universe u

section Turns

variable {Seq : Type u} (less : Seq → Seq → Prop) [DecidableRel less] (getter : SeqGetter Seq)

def plainOf : Fate Seq Nat → Option Nat
  | .recv id => some id
  | _ => none

def line (fates : List (Fate Seq Nat)) (queue : List Receiver) : List Nat :=
  fates.filterMap plainOf ++ queue.map Receiver.id

structure Lined (board : Board Seq) : Prop where
  plain : (line board.fates board.queue).Pairwise (· < ·)
  keyed : (board.pending.map fun entry => entry.2.id).Pairwise (· < ·)

/-- What this means for the object: the packet that comes next finds the oldest receiver. -/
structure InTurn (front : Front Seq) : Prop where
  plain : (line front.fates front.queue).Pairwise (· < ·)
  keyed : ∀ bytes entry, front.seqer.picked less getter bytes = some entry →
    ∀ other ∈ front.seqer.mapping,
      Equivalent less (getter bytes front.seqer.curSeq).2 other.1 → entry.2.id ≤ other.2.id

variable {less getter} {board after : Board Seq}

omit [DecidableRel less] in
theorem lined_new (seq : Seq) : Lined { curSeq := seq } := ⟨List.Pairwise.nil, List.Pairwise.nil⟩

omit [DecidableRel less] in
theorem lined_left (lined : Lined board)
    (plain : (line after.fates after.queue).Sublist (line board.fates board.queue))
    (keyed : after.pending.Sublist board.pending) : Lined after where
  plain := lined.plain.sublist plain
  keyed := lined.keyed.sublist (keyed.map _)

theorem line_served {fates : List (Fate Seq Nat)} {receiver : Receiver} {rest : List Receiver} :
    line (fates ++ [.recv receiver.id]) rest = line fates (receiver :: rest) := by
  simp [line, plainOf]

theorem line_other {fates : List (Fate Seq Nat)} {fate : Fate Seq Nat} {queue : List Receiver}
    (other : plainOf fate = none) : line (fates ++ [fate]) queue = line fates queue := by
  simp [line, other]

omit [DecidableRel less] in
theorem line_fresh (sound : Sound board) :
    ∀ id ∈ line board.fates board.queue, id < board.next := by
  intro id member
  refine sound.fresh id ?_
  rcases List.mem_append.mp member with served | waits
  · obtain ⟨fate, inside, same⟩ := List.mem_filterMap.mp served
    refine List.mem_append_left _ (List.mem_filterMap.mpr ⟨fate, inside, ?_⟩)
    cases fate with
    | recv other => exact same
    | _ => cases same
  · exact List.mem_append_right _ (List.mem_append_right _ waits)

theorem lined_packet (lined : Lined board) (bytes : List Byte) :
    Lined (board.packet less getter bytes) := by
  unfold Board.packet
  dsimp only
  split
  · refine lined_left lined ?_ List.eraseP_sublist
    rw [line_other rfl]
  · rename_i receiver rest _ queue
    refine lined_left lined ?_ (List.Sublist.refl _)
    rw [line_served, ← queue]
  · split
    · refine lined_left lined ?_ (List.Sublist.refl _)
      rw [line_other rfl]
    · refine lined_left lined ?_ (List.Sublist.refl _)
      rw [line_other rfl]

theorem lined_step (sound : Sound board) (lined : Lined board) (event : Event Seq)
    (taken : SeqBoard.step less getter board event = some after) : Lined after := by
  cases event with
  | register seq buf len =>
      cases taken
      refine ⟨lined.plain, ?_⟩
      rw [List.map_append, List.pairwise_append]
      refine ⟨lined.keyed, List.pairwise_singleton _ _, fun id member last same => ?_⟩
      obtain rfl : last = board.next := by simpa using same
      exact sound.fresh id (List.mem_append_right _ (List.mem_append_left _ member))
  | recv buf len =>
      cases taken
      refine ⟨?_, lined.keyed⟩
      unfold line
      rw [List.map_append, ← List.append_assoc, List.pairwise_append]
      refine ⟨lined.plain, List.pairwise_singleton _ _, fun id member last same => ?_⟩
      obtain rfl : last = board.next := by simpa using same
      exact line_fresh sound id member
  | cancelRecv id =>
      simp only [SeqBoard.step] at taken
      split at taken
      · cases taken
        exact lined_left lined ((List.filter_sublist.map _).append_left _) (List.Sublist.refl _)
      · cases taken
  | dropKey seq =>
      cases taken
      exact lined_left lined (List.Sublist.refl _) List.filter_sublist
  | packet bytes =>
      cases taken
      exact lined_packet lined bytes
  | plain =>
      simp only [SeqBoard.step] at taken
      split at taken
      · cases taken
      · rename_i receiver rest queue
        cases taken
        refine lined_left lined ?_ (List.Sublist.refl _)
        rw [line_served, ← queue]

theorem lined_run {seq : Seq} {events : List (Event Seq)}
    (run : replay (SeqBoard.step less getter) { curSeq := seq } events = some after) :
    Lined after := by
  have both : Sound after ∧ Lined after :=
    replay_always (fun board => Sound board ∧ Lined board)
      (fun _ event _ kept taken => ⟨sound_step kept.1 event taken, lined_step kept.1 kept.2 event taken⟩)
      ⟨sound_new seq, lined_new seq⟩ run
  exact both.2

theorem shown_in_turn [IsStrictWeakOrder Seq less] {front : Front Seq}
    (shows_ : Shows less front board) (lined : Lined board) : InTurn less getter front where
  plain := by
    rw [shows_.fates, shows_.queue]
    exact lined.plain
  keyed := by
    intro bytes entry picked other member equivalent
    have chosen := (shows_picked shows_ bytes).symm.trans picked
    unfold Board.chosen at chosen
    dsimp only at chosen
    split at chosen
    · obtain ⟨-, before, later, split, earlier⟩ := List.find?_eq_some_iff_append.mp chosen
      have order := lined.keyed
      rw [mirrors_mem shows_.mirrors, split] at member
      rw [split, List.map_append, List.map_cons, List.pairwise_append, List.pairwise_cons] at order
      rcases List.mem_append.mp member with first | rest
      · -- the entries in front of the first match do not match
        have apart := earlier other first
        rw [shows_.curSeq] at equivalent
        simp [matching, equivalent] at apart
      · rcases List.mem_cons.mp rest with rfl | last
        · exact Nat.le_refl _
        · exact Nat.le_of_lt (order.2.1.1 _ (List.mem_map_of_mem last))
    · cases chosen

end Turns

section Objects

variable {Seq : Type u} {less : Seq → Seq → Prop} [DecidableRel less]
  {getter : SeqGetter Seq} {socket next : UdpSocket.Udp Seq}

def received (socket : UdpSocket.Udp Seq) : UdpSocket.Label Seq → List (List Byte)
  | .datagram bytes _ =>
      match socket.reading, socket.recvQueue with
      | some .cb0, receiver :: _ =>
          if min bytes.length (UdpSocket.udpAllocCb0 receiver) = 0 then [] else [bytes]
      | some .cb1, _ | some .cb2, _ =>
          if bytes.take UdpSocket.routingBufSize = [] then [] else [bytes]
      | _, _ => []
  | _ => []

def settled (socket : UdpSocket.Udp Seq) : Nat := socket.fates.length + socket.cIgnored

theorem settled_recvStart {receiving : UdpSocket.Receiving} {callbacks : UdpSocket.Callbacks}
    (taken : socket.recvStart receiving callbacks = some next) : settled next = settled socket := by
  rw [UdpRouting.recvStart_eq taken]
  rfl

theorem settled_recv {buf : Bool} {len : Nat} (taken : socket.recvRun buf len = some next) :
    settled next = settled socket := by
  unfold UdpSocket.Udp.recvRun at taken
  split at taken
  · cases taken
  · obtain ⟨started, start, rfl⟩ := Option.map_eq_some_iff.mp taken
    change settled started = settled socket
    split at start
    · split at start
      · exact settled_recvStart start
      · exact settled_recvStart start
    · cases start
      rfl

theorem settled_recvBySeq {seq : Seq} {buf : Bool} {len : Nat}
    (taken : socket.recvBySeqRun less seq buf len = some next) :
    settled next = settled socket := by
  unfold UdpSocket.Udp.recvBySeqRun at taken
  split at taken
  · cases taken
  · split at taken
    · cases taken
    · obtain ⟨started, start, rfl⟩ := Option.map_eq_some_iff.mp taken
      change settled started = settled socket
      split at start
      · exact settled_recvStart start
      · cases start
        rfl

theorem settled_cb1 {bytes : List Byte} {addr : UdpSocket.SockAddr}
    (taken : socket.udpRecvCb1 less getter bytes addr = some next) :
    settled next = settled socket +
      if bytes.take UdpSocket.routingBufSize = [] then 0 else 1 := by
  unfold UdpSocket.Udp.udpRecvCb1 at taken
  dsimp only at taken
  split at taken
  · rename_i nothing
    cases taken
    rw [if_pos nothing, Nat.add_zero]
  · rename_i something
    rw [if_neg something]
    split at taken
    · cases taken
    · split at taken
      · cases taken
        simp only [settled, List.length_append, List.length_singleton]
        omega
      · split at taken
        · split at taken
          · cases taken
            simp only [settled, List.length_append, List.length_singleton]
            omega
          · cases taken
            simp only [settled, List.length_append, List.length_singleton]
            omega
        · cases taken
          simp only [settled, List.length_append, List.length_singleton]
          omega

variable [Inhabited Seq]

theorem settled_datagram {bytes : List Byte} {addr : UdpSocket.SockAddr}
    (taken : UdpSocket.step less getter socket (.datagram bytes addr) = some next) :
    settled next = settled socket + (received socket (.datagram bytes addr)).length := by
  simp only [UdpSocket.step] at taken
  split at taken
  · cases taken
  · split at taken
    · cases taken
    · rename_i reading
      unfold UdpSocket.Udp.udpRecvCb0 at taken
      split at taken
      · cases taken
      · rename_i receiver rest queue
        dsimp only at taken
        simp only [received, reading, queue]
        split at taken
        · rename_i nothing
          cases taken
          rw [if_pos nothing]
          rfl
        · rename_i something
          cases taken
          rw [if_neg something]
          simp only [settled, List.length_append, List.length_singleton]
          omega
    · rename_i reading
      rw [settled_cb1 taken]
      simp only [received, reading]
      split <;> rfl
    · rename_i reading
      simp only [received, reading]
      split at taken
      · rename_i nothing
        cases taken
        rw [if_pos nothing]
        rfl
      · rename_i something
        cases taken
        rw [if_neg something]
        rfl

theorem settled_step (socket : UdpSocket.Udp Seq) (label : UdpSocket.Label Seq)
    (next : UdpSocket.Udp Seq) (taken : UdpSocket.step less getter socket label = some next) :
    settled next = settled socket + (received socket label).length := by
  cases label with
  | bindSeqer =>
      cases taken
      unfold UdpSocket.Udp.bindSeqer
      split <;> rfl
  | ignoreRecv =>
      simp only [UdpSocket.step, UdpSocket.Udp.ignoreRecv] at taken
      split at taken
      · exact settled_recvStart taken
      · cases taken
  | recv buf len => exact settled_recv taken
  | recvBySeq seq buf len => exact settled_recvBySeq taken
  | cancelRecv id =>
      simp only [UdpSocket.step, UdpSocket.Udp.recvCancel] at taken
      split at taken
      · split at taken
        · cases taken
          rfl
        · cases taken
          rfl
      · cases taken
  | cancelBySeq id =>
      simp only [UdpSocket.step, UdpSocket.Udp.recvBySeqCancel] at taken
      split at taken
      · cases taken
        rfl
      · cases taken
  | datagram bytes addr => exact settled_datagram taken
  | back =>
      simp only [UdpSocket.step] at taken
      split at taken
      · cases taken
      · cases taken
        unfold UdpSocket.Udp.udpRecvCb0Back
        dsimp only
        split <;> rfl
      · cases taken
        rfl

structure Accounted (less : Seq → Seq → Prop) [DecidableRel less] (getter : SeqGetter Seq)
    (datagrams : List (List Byte)) (socket : UdpSocket.Udp Seq) : Prop where
  total : datagrams.length = socket.fates.length + socket.cIgnored
  served : ((udpFront socket).fates.filterMap Fate.delivered).Nodup
  counted : socket.fates.length = ((udpFront socket).fates.filterMap Fate.delivered).length +
    socket.cUnrecv + socket.cFailed
  turns : InTurn less getter (udpFront socket)

/-- In every run of a socket, whatever its mode and its cancellations, each datagram has one end
and the receivers are served at most once and in turn; so are those of a connection. -/
theorem receivers_in_turn [IsStrictWeakOrder Seq less] :
    (∀ (labels : List (UdpSocket.Label Seq)) (last : UdpSocket.Udp Seq),
      replay (UdpSocket.step less getter) {} labels = some last →
        Accounted less getter (observed (UdpSocket.step less getter) received {} labels) last) ∧
    (∀ (framing : PacketFraming.Connected) (labels : List (TcpSequencing.Label Seq))
      (last : TcpSequencing.Connected Seq),
      replay (TcpSequencing.step less getter) (TcpSequencing.bound framing) labels = some last →
        ((tcpFront last).fates.filterMap Fate.delivered).Nodup ∧
          InTurn less getter (tcpFront last)) := by
  refine ⟨fun labels last run => ?_, fun framing labels last run => ?_⟩
  · obtain ⟨board, follows, shows_, sound⟩ := udp_traced (traced_new default) run
    have total := observed_total received settled settled_step run
    have counted := sound_counted sound
    unfold Board.served at counted
    rw [← shows_.fates, ← shows_.unrecv, ← shows_.failed] at counted
    refine ⟨?_, ?_, ?_, shown_in_turn shows_ (lined_run follows)⟩
    · rw [← settled, total]
      exact (Nat.zero_add _).symm
    · rw [shows_.fates]
      exact sound.nodup.sublist (List.sublist_append_left _ _)
    · exact (List.length_map _).symm.trans counted
  · obtain ⟨board, follows, shows_, sound⟩ := tcp_traced (traced_new default) run
    refine ⟨?_, shown_in_turn shows_ (lined_run follows)⟩
    rw [shows_.fates]
    exact sound.nodup.sublist (List.sublist_append_left _ _)

end Objects

/-- Three plain requests, one of them cancelled inside the callback of the first datagram. -/
def cancelledBetween : List (UdpSocket.Label Nat) :=
  [.recv true 8, .recv true 8, .recv false 0, .datagram [5] (.inet []), .cancelRecv 1, .back,
    .datagram [6] (.inet []), .back]

theorem receivers_in_turn_cancelled : ∃ last,
    replay (UdpSocket.step (· < ·) UdpRouting.firstByte) {} cancelledBetween = some last ∧
      (udpFront last).fates = [.recv 0, .recv 2] ∧
      Accounted (· < ·) UdpRouting.firstByte [[5], [6]] last := by
  have order : IsStrictWeakOrder Nat (· < ·) := isStrictWeakOrder_of_isOrderConnected
  have reached : (replay (UdpSocket.step (· < ·) UdpRouting.firstByte) {}
      cancelledBetween).isSome := by decide
  have accounted := receivers_in_turn.1 cancelledBetween _ (Option.some_get reached).symm
  exact ⟨_, (Option.some_get reached).symm, rfl, accounted⟩

end Cocoflow.ReceiverTurns
