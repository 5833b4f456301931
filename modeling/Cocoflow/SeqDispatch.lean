import Mathlib.Data.List.Basic
import Mathlib.Data.List.Nodup
import Mathlib.Order.Defs.Unbundled
import Mathlib.Order.RelClasses
import Mathlib.Order.Nat
import Cocoflow.LabelledRuns
import Cocoflow.StableMultimap
import Cocoflow.TcpConnection
import Cocoflow.LengthFraming
import Cocoflow.PacketFraming
import Cocoflow.Sequencer
import Cocoflow.SeqBoard
import Cocoflow.SeqFront
import Cocoflow.UdpSocket
import Cocoflow.UdpRouting
import Cocoflow.TcpSequencing

/-!
The two dispatchers. `udp_recv_cb1` and `tcp_recv_cb2` are written separately; both do to
their receivers what `Front.packet` does, so the board of `SeqBoard` follows every run of
either object.
-/

namespace Cocoflow.SeqDispatch

open LabelledRuns StableMultimap TcpConnection Sequencer SeqBoard SeqFront

universe u

section Following

variable {Seq : Type u} (less : Seq → Seq → Prop) [DecidableRel less] (getter : SeqGetter Seq)

/-- A step shows one operation or none. -/
def Follows (front : Front Seq) (op : Option (Op Seq)) (after : Front Seq) : Prop :=
  op.elim (after = front) fun op => SeqFront.step less getter front op = some after

def shown (front : Front Seq) (op : Option (Op Seq)) : List (Event Seq) :=
  op.elim [] (events front)

def Traced (front : Front Seq) (board : Board Seq) : Prop :=
  Shows less front board ∧ Sound board

variable {less} {getter} {front after : Front Seq} {board : Board Seq}

theorem traced_follows [IsStrictWeakOrder Seq less] {op : Option (Op Seq)}
    (traced : Traced less front board) (follows : Follows less getter front op after) :
    ∃ next, replay (SeqBoard.step less getter) board (shown front op) = some next ∧
      Traced less after next := by
  cases op with
  | none =>
      obtain rfl : after = front := follows
      exact ⟨board, rfl, traced⟩
  | some op =>
      obtain ⟨next, run, shows_⟩ := shows_step traced.1 traced.2 op follows
      exact ⟨next, run, shows_, sound_run traced.2 run⟩

end Following

section Udp

variable {Seq : Type u} [Inhabited Seq] (less : Seq → Seq → Prop) [DecidableRel less]
  (getter : SeqGetter Seq)

def udpFront (socket : UdpSocket.Udp Seq) : Front Seq where
  seqer := socket.seqer.getD { curSeq := default }
  queue := socket.recvQueue
  waiting := socket.waiting
  cUnrecv := socket.cUnrecv
  cFailed := socket.cFailed
  next := socket.next
  fates := socket.fates.map (Fate.map UdpSocket.Delivery.receiver)

def udpDatagram (socket : UdpSocket.Udp Seq) (bytes : List Byte) : Option (Op Seq) :=
  match socket.reading, socket.recvQueue with
  | some .cb0, receiver :: _ =>
      if min bytes.length (UdpSocket.udpAllocCb0 receiver) = 0 then none else some .plain
  | some .cb1, _ =>
      if bytes.take UdpSocket.routingBufSize = [] then none
      else some (.packet (bytes.take UdpSocket.routingBufSize))
  | _, _ => none

def udpOp (socket : UdpSocket.Udp Seq) : UdpSocket.Label Seq → Option (Op Seq)
  | .recv buf len => some (.recv buf len)
  | .recvBySeq seq buf len => some (.recvBySeq seq buf len)
  | .cancelRecv id => some (.cancelRecv id)
  | .cancelBySeq id => some (.cancelBySeq id)
  | .datagram bytes _ => udpDatagram socket bytes
  | .bindSeqer | .ignoreRecv | .back => none

def udpShown (socket : UdpSocket.Udp Seq) (label : UdpSocket.Label Seq) : List (Event Seq) :=
  shown (udpFront socket) (udpOp socket label)

variable {less getter} {socket next : UdpSocket.Udp Seq}

theorem recvStart_front {receiving : UdpSocket.Receiving} {callbacks : UdpSocket.Callbacks}
    (taken : socket.recvStart receiving callbacks = some next) :
    udpFront next = udpFront socket := by
  rw [UdpRouting.recvStart_eq taken]
  rfl

theorem udp_follows_recv {buf : Bool} {len : Nat}
    (taken : socket.recvRun buf len = some next) :
    Follows less getter (udpFront socket) (some (.recv buf len)) (udpFront next) := by
  unfold UdpSocket.Udp.recvRun at taken
  split at taken
  · cases taken
  · obtain ⟨started, start, rfl⟩ := Option.map_eq_some_iff.mp taken
    have same : udpFront started = udpFront socket := by
      split at start
      · split at start <;> exact recvStart_front start
      · cases start
        rfl
    unfold Follows
    rw [← same]
    rfl

theorem udp_follows_recvBySeq {seq : Seq} {buf : Bool} {len : Nat}
    (taken : socket.recvBySeqRun less seq buf len = some next) :
    Follows less getter (udpFront socket) (some (.recvBySeq seq buf len)) (udpFront next) := by
  unfold UdpSocket.Udp.recvBySeqRun at taken
  split at taken
  · cases taken
  · rename_i seqer held
    split at taken
    · cases taken
    · obtain ⟨started, start, rfl⟩ := Option.map_eq_some_iff.mp taken
      have same : udpFront started = udpFront socket := by
        split at start
        · exact recvStart_front start
        · cases start
          rfl
      have kept : (udpFront started).seqer = seqer := by
        rw [same]
        simp [udpFront, held]
      have ids : socket.next = started.next := (congrArg Front.next same).symm
      unfold Follows
      rw [← same, ids]
      simp only [Option.elim_some, SeqFront.step, kept]
      rfl

theorem udp_follows_cancelRecv {id : Nat} (taken : socket.recvCancel id = some next) :
    Follows less getter (udpFront socket) (some (.cancelRecv id)) (udpFront next) := by
  unfold UdpSocket.Udp.recvCancel at taken
  split at taken
  · rename_i found
    have shows_ : SeqFront.step less getter (udpFront socket) (.cancelRecv id) = some
        { udpFront socket with
          queue := socket.recvQueue.filter fun other => other.id ≠ id } := if_pos found
    dsimp only at taken
    split at taken
    · cases taken
      exact shows_
    · cases taken
      exact shows_
  · cases taken

theorem udp_follows_cancelBySeq {id : Nat} (taken : socket.recvBySeqCancel less id = some next) :
    Follows less getter (udpFront socket) (some (.cancelBySeq id)) (udpFront next) := by
  unfold UdpSocket.Udp.recvBySeqCancel at taken
  split at taken
  · rename_i entry seqer found held
    cases taken
    simp only [Follows, Option.elim_some, SeqFront.step, udpFront, found, held, Option.getD_some]
  · cases taken

theorem udp_follows_cb0 {bytes : List Byte} {addr : UdpSocket.SockAddr}
    (reading : socket.reading = some .cb0) (taken : socket.udpRecvCb0 bytes addr = some next) :
    Follows less getter (udpFront socket) (udpDatagram socket bytes) (udpFront next) := by
  unfold UdpSocket.Udp.udpRecvCb0 at taken
  split at taken
  · cases taken
  · rename_i receiver rest queue
    simp only [udpDatagram, reading, queue]
    dsimp only at taken
    split at taken
    · rename_i nothing
      cases taken
      rw [if_pos nothing]
      rfl
    · rename_i some_
      cases taken
      rw [if_neg some_]
      simp [Follows, SeqFront.step, udpFront, queue, UdpSocket.filled, Fate.map]

theorem udp_follows_cb1 {bytes : List Byte} {addr : UdpSocket.SockAddr}
    (reading : socket.reading = some .cb1)
    (taken : socket.udpRecvCb1 less getter bytes addr = some next) :
    Follows less getter (udpFront socket) (udpDatagram socket bytes) (udpFront next) := by
  unfold UdpSocket.Udp.udpRecvCb1 at taken
  dsimp only at taken
  simp only [udpDatagram, reading]
  split at taken
  · rename_i empty
    cases taken
    rw [if_pos empty]
    rfl
  · rename_i nonempty
    rw [if_neg nonempty]
    split at taken
    · cases taken
    · rename_i seqer held
      simp only [Follows, Option.elim_some, SeqFront.step, Option.some.injEq]
      unfold Front.packet
      simp only [udpFront, held, Option.getD_some]
      split at taken
      · rename_i rbs picked
        cases taken
        simp [picked, UdpSocket.routed, Fate.map]
      · rename_i unpicked
        split at taken
        · rename_i queue
          simp only [unpicked, queue]
          split at taken
          · rename_i valid
            cases taken
            simp [if_pos valid, queue, Fate.map]
          · rename_i invalid
            cases taken
            simp [if_neg invalid, queue, Fate.map]
        · rename_i receiver rest queue
          cases taken
          simp [unpicked, queue, UdpSocket.routed, Fate.map]

theorem udp_follows (label : UdpSocket.Label Seq)
    (taken : UdpSocket.step less getter socket label = some next) :
    Follows less getter (udpFront socket) (udpOp socket label) (udpFront next) := by
  cases label with
  | bindSeqer =>
      cases taken
      unfold UdpSocket.Udp.bindSeqer
      dsimp only [udpOp]
      split
      · rfl
      · rename_i none_
        rw [Option.not_isSome_iff_eq_none] at none_
        simp [Follows, udpFront, none_]
  | ignoreRecv =>
      simp only [UdpSocket.step, UdpSocket.Udp.ignoreRecv] at taken
      split at taken
      · exact recvStart_front taken
      · cases taken
  | recv buf len => exact udp_follows_recv taken
  | recvBySeq seq buf len => exact udp_follows_recvBySeq taken
  | cancelRecv id => exact udp_follows_cancelRecv taken
  | cancelBySeq id => exact udp_follows_cancelBySeq taken
  | datagram bytes addr =>
      simp only [UdpSocket.step] at taken
      split at taken
      · cases taken
      · split at taken
        · cases taken
        · rename_i reading
          exact udp_follows_cb0 reading taken
        · rename_i reading
          exact udp_follows_cb1 reading taken
        · rename_i reading
          simp only [udpOp, udpDatagram, reading]
          split at taken
          · cases taken
            rfl
          · cases taken
            rfl
  | back =>
      simp only [UdpSocket.step] at taken
      split at taken
      · cases taken
      · cases taken
        unfold UdpSocket.Udp.udpRecvCb0Back
        dsimp only
        split <;> rfl
      · cases taken
        rfl

/-- Libuv reads with the callbacks of the mode, and the recv_by_seq mode has a sequencer. -/
def Moded (socket : UdpSocket.Udp Seq) : Prop :=
  socket.reading = UdpRouting.callbacksOf socket.receiving ∧
    (socket.receiving = .recvBySeq → socket.seqer.isSome)

/-- A bound socket that is read through the sequencer or not at all. -/
def Routed (socket : UdpSocket.Udp Seq) : Prop :=
  socket.seqer.isSome ∧ (socket.receiving = .recvBySeq ∨ socket.receiving = .ready)

def udpEvents : UdpSocket.Label Seq → List (Event Seq)
  | .recv buf len => [.recv buf len]
  | .recvBySeq seq buf len => [.register seq buf len]
  | .cancelRecv id => [.cancelRecv id]
  | .datagram bytes _ =>
      if bytes = [] then [] else [.packet (bytes.take UdpSocket.routingBufSize)]
  | .bindSeqer | .ignoreRecv | .cancelBySeq _ | .back => []

def UdpDispatching : UdpSocket.Label Seq → Prop
  | .recv _ _ | .recvBySeq _ _ _ | .cancelRecv _ | .datagram _ _ | .back => True
  | .bindSeqer | .ignoreRecv | .cancelBySeq _ => False

omit [Inhabited Seq] in
theorem moded_kept (moded : Moded socket) (receiving : next.receiving = socket.receiving)
    (reading : next.reading = socket.reading)
    (seqer : socket.seqer.isSome → next.seqer.isSome) : Moded next := by
  unfold Moded
  rw [receiving, reading]
  exact ⟨moded.1, fun mode => seqer (moded.2 mode)⟩

omit [Inhabited Seq] in
theorem moded_stopped : Moded socket.recvStop := ⟨rfl, fun mode => by cases mode⟩

omit [Inhabited Seq] in
theorem moded_recv {buf : Bool} {len : Nat} (moded : Moded socket)
    (taken : socket.recvRun buf len = some next) : Moded next := by
  unfold UdpSocket.Udp.recvRun at taken
  split at taken
  · cases taken
  · obtain ⟨started, start, rfl⟩ := Option.map_eq_some_iff.mp taken
    split at start
    · split at start
      · rw [UdpRouting.recvStart_eq start]
        exact ⟨rfl, fun mode => by cases mode⟩
      · rename_i held
        rw [UdpRouting.recvStart_eq start]
        exact ⟨rfl, fun _ => by simp [held]⟩
    · cases start
      exact moded

omit [Inhabited Seq] in
theorem moded_recvBySeq {seq : Seq} {buf : Bool} {len : Nat} (moded : Moded socket)
    (taken : socket.recvBySeqRun less seq buf len = some next) : Moded next := by
  unfold UdpSocket.Udp.recvBySeqRun at taken
  split at taken
  · cases taken
  · split at taken
    · cases taken
    · obtain ⟨started, start, rfl⟩ := Option.map_eq_some_iff.mp taken
      split at start
      · rw [UdpRouting.recvStart_eq start]
        exact ⟨rfl, fun _ => rfl⟩
      · cases start
        exact ⟨moded.1, fun _ => rfl⟩

omit [Inhabited Seq] in
theorem moded_cancelRecv {id : Nat} (moded : Moded socket)
    (taken : socket.recvCancel id = some next) : Moded next := by
  unfold UdpSocket.Udp.recvCancel at taken
  split at taken
  · dsimp only at taken
    split at taken
    · cases taken
      exact moded_stopped
    · cases taken
      exact moded
  · cases taken

omit [Inhabited Seq] in
theorem cb1_kept {bytes : List Byte} {addr : UdpSocket.SockAddr}
    (taken : socket.udpRecvCb1 less getter bytes addr = some next) :
    next.receiving = socket.receiving ∧ next.reading = socket.reading ∧
      (socket.seqer.isSome → next.seqer.isSome) := by
  unfold UdpSocket.Udp.udpRecvCb1 at taken
  dsimp only at taken
  split at taken
  · cases taken
    exact ⟨rfl, rfl, id⟩
  · split at taken
    · cases taken
    · split at taken
      · cases taken
        exact ⟨rfl, rfl, fun _ => rfl⟩
      · split at taken
        · split at taken
          · cases taken
            exact ⟨rfl, rfl, fun _ => rfl⟩
          · cases taken
            exact ⟨rfl, rfl, fun _ => rfl⟩
        · cases taken
          exact ⟨rfl, rfl, fun _ => rfl⟩

theorem moded_step (moded : Moded socket) (label : UdpSocket.Label Seq)
    (taken : UdpSocket.step less getter socket label = some next) : Moded next := by
  cases label with
  | bindSeqer =>
      cases taken
      unfold UdpSocket.Udp.bindSeqer
      split
      · exact moded
      · exact ⟨moded.1, fun _ => rfl⟩
  | ignoreRecv =>
      simp only [UdpSocket.step, UdpSocket.Udp.ignoreRecv] at taken
      split at taken
      · rw [UdpRouting.recvStart_eq taken]
        exact ⟨rfl, fun mode => by cases mode⟩
      · cases taken
  | recv buf len => exact moded_recv moded taken
  | recvBySeq seq buf len => exact moded_recvBySeq moded taken
  | cancelRecv id => exact moded_cancelRecv moded taken
  | cancelBySeq id =>
      simp only [UdpSocket.step, UdpSocket.Udp.recvBySeqCancel] at taken
      split at taken
      · cases taken
        exact ⟨moded.1, fun _ => rfl⟩
      · cases taken
  | datagram bytes addr =>
      simp only [UdpSocket.step] at taken
      split at taken
      · cases taken
      · split at taken
        · cases taken
        · unfold UdpSocket.Udp.udpRecvCb0 at taken
          split at taken
          · cases taken
          · dsimp only at taken
            split at taken
            · cases taken
              exact moded
            · cases taken
              exact moded
        · obtain ⟨receiving, reading, seqer⟩ := cb1_kept taken
          exact moded_kept moded receiving reading seqer
        · split at taken
          · cases taken
            exact moded
          · cases taken
            exact moded
  | back =>
      simp only [UdpSocket.step] at taken
      split at taken
      · cases taken
      · cases taken
        unfold UdpSocket.Udp.udpRecvCb0Back
        dsimp only
        split
        · exact moded_stopped
        · exact moded
      · cases taken
        exact moded

omit [Inhabited Seq] in
theorem routed_recv {buf : Bool} {len : Nat} (routed : Routed socket)
    (taken : socket.recvRun buf len = some next) : Routed next := by
  obtain ⟨held, mode⟩ := routed
  unfold UdpSocket.Udp.recvRun at taken
  split at taken
  · cases taken
  · obtain ⟨started, start, rfl⟩ := Option.map_eq_some_iff.mp taken
    split at start
    · split at start
      · rename_i none_
        rw [none_] at held
        cases held
      · rw [UdpRouting.recvStart_eq start]
        exact ⟨held, Or.inl rfl⟩
    · cases start
      exact ⟨held, mode⟩

omit [Inhabited Seq] in
theorem routed_recvBySeq {seq : Seq} {buf : Bool} {len : Nat} (routed : Routed socket)
    (taken : socket.recvBySeqRun less seq buf len = some next) : Routed next := by
  unfold UdpSocket.Udp.recvBySeqRun at taken
  split at taken
  · cases taken
  · split at taken
    · cases taken
    · obtain ⟨started, start, rfl⟩ := Option.map_eq_some_iff.mp taken
      split at start
      · rw [UdpRouting.recvStart_eq start]
        exact ⟨rfl, Or.inl rfl⟩
      · cases start
        exact ⟨rfl, routed.2⟩

omit [Inhabited Seq] in
theorem routed_cancelRecv {id : Nat} (routed : Routed socket)
    (taken : socket.recvCancel id = some next) : Routed next := by
  unfold UdpSocket.Udp.recvCancel at taken
  split at taken
  · dsimp only at taken
    split at taken
    · cases taken
      exact ⟨routed.1, Or.inr rfl⟩
    · cases taken
      exact routed
  · cases taken

theorem routed_step (moded : Moded socket) (routed : Routed socket)
    {label : UdpSocket.Label Seq} (dispatching : UdpDispatching label)
    (taken : UdpSocket.step less getter socket label = some next) :
    Routed next ∧ udpShown socket label = udpEvents label := by
  cases label with
  | bindSeqer | ignoreRecv => cases dispatching
  | cancelBySeq id => cases dispatching
  | recv buf len => exact ⟨routed_recv routed taken, rfl⟩
  | recvBySeq seq buf len => exact ⟨routed_recvBySeq routed taken, rfl⟩
  | cancelRecv id => exact ⟨routed_cancelRecv routed taken, rfl⟩
  | datagram bytes addr =>
      simp only [UdpSocket.step] at taken
      split at taken
      · cases taken
      · rcases routed.2 with mode | mode
        · have reading := moded.1
          rw [mode] at reading
          simp only [UdpRouting.callbacksOf] at reading
          simp only [reading] at taken
          obtain ⟨same, -, held⟩ := cb1_kept taken
          refine ⟨⟨held routed.1, Or.inl (same.trans mode)⟩, ?_⟩
          have length : UdpSocket.routingBufSize ≠ 0 := by decide
          simp only [udpShown, udpOp, udpDatagram, reading, udpEvents,
            List.take_eq_nil_iff, length, false_or]
          split
          · rfl
          · rfl
        · have reading := moded.1
          rw [mode] at reading
          simp only [UdpRouting.callbacksOf] at reading
          simp only [reading] at taken
          cases taken
  | back =>
      refine ⟨?_, rfl⟩
      simp only [UdpSocket.step] at taken
      split at taken
      · cases taken
      · cases taken
        unfold UdpSocket.Udp.udpRecvCb0Back
        dsimp only
        split
        · exact ⟨routed.1, Or.inr rfl⟩
        · exact routed
      · cases taken
        exact routed

theorem routed_observed (moded : Moded socket) (routed : Routed socket)
    {labels : List (UdpSocket.Label Seq)} (dispatching : ∀ label ∈ labels, UdpDispatching label)
    {last : UdpSocket.Udp Seq}
    (run : replay (UdpSocket.step less getter) socket labels = some last) :
    observed (UdpSocket.step less getter) udpShown socket labels = labels.flatMap udpEvents := by
  induction labels generalizing socket with
  | nil => rfl
  | cons label rest ih =>
      obtain ⟨next, taken, tail⟩ := replay_cons run
      obtain ⟨kept, same⟩ := routed_step moded routed (dispatching label (by simp)) taken
      have later := ih (moded_step moded label taken) kept
        (fun other member => dispatching other (by simp [member])) tail
      simp only [observed, taken, Option.elim_some, same, later, List.flatMap_cons]

end Udp

section Tcp

variable {Seq : Type u} (less : Seq → Seq → Prop) [DecidableRel less] (getter : SeqGetter Seq)

def tcpFront (connection : TcpSequencing.Connected Seq) : Front Seq where
  seqer := connection.seqer
  queue := connection.recvQueue0
  waiting := connection.waiting
  cUnrecv := connection.cUnrecv
  cFailed := connection.cFailed
  next := connection.next
  fates := connection.fates.map (Fate.map TcpSequencing.Delivery.receiver)

def tcpRead (connection : TcpSequencing.Connected Seq) (bytes : List Byte) : Option (Op Seq) :=
  (PacketFraming.step connection.framing (.chunk bytes)).bind fun framed =>
    (TcpSequencing.completed connection.framing framed).map Op.packet

def tcpOp (connection : TcpSequencing.Connected Seq) : TcpSequencing.Label Seq → Option (Op Seq)
  | .recv buf len => some (.recv buf len)
  | .recvBySeq seq buf len => some (.recvBySeq seq buf len)
  | .cancelRecv id => some (.cancelRecv id)
  | .cancelBySeq id => some (.cancelBySeq id)
  | .read bytes => tcpRead connection bytes
  | .back => none

def tcpShown (connection : TcpSequencing.Connected Seq) (label : TcpSequencing.Label Seq) :
    List (Event Seq) :=
  shown (tcpFront connection) (tcpOp connection label)

variable {less getter} {connection next : TcpSequencing.Connected Seq}

theorem tcp_packet_front (connection : TcpSequencing.Connected Seq) (packet : List Byte) :
    tcpFront (connection.tcpRecvPacket less getter packet) =
      (tcpFront connection).packet less getter packet := by
  unfold TcpSequencing.Connected.tcpRecvPacket Front.packet
  simp only [tcpFront]
  split
  · rename_i rbs picked
    simp [picked, TcpSequencing.delivered, Fate.map]
  · rename_i unpicked
    split
    · rename_i queue
      simp only [unpicked, queue]
      split
      · simp [Fate.map]
      · simp [Fate.map]
    · rename_i receiver rest queue
      simp [unpicked, queue, TcpSequencing.delivered, Fate.map]

theorem tcp_follows_read {bytes : List Byte}
    (taken : connection.tcpRecvCb2 less getter bytes = some next) :
    Follows less getter (tcpFront connection) (tcpRead connection bytes) (tcpFront next) := by
  obtain ⟨framed, framing, rest⟩ := Option.bind_eq_some_iff.mp taken
  simp only [tcpRead, framing, Option.bind_some]
  split at rest
  · cases rest
  · split at rest
    · rename_i open_
      cases rest
      rw [open_]
      rfl
    · rename_i packet full
      cases rest
      rw [full]
      simp only [Option.map_some, Follows, Option.elim_some, SeqFront.step, tcp_packet_front]
      rfl

theorem tcp_follows (label : TcpSequencing.Label Seq)
    (taken : TcpSequencing.step less getter connection label = some next) :
    Follows less getter (tcpFront connection) (tcpOp connection label) (tcpFront next) := by
  cases label with
  | recv buf len =>
      simp only [TcpSequencing.step, TcpSequencing.Connected.recvRun] at taken
      split at taken
      · cases taken
      · cases taken
        rfl
  | recvBySeq seq buf len =>
      simp only [TcpSequencing.step, TcpSequencing.Connected.recvBySeqRun] at taken
      split at taken
      · cases taken
      · cases taken
        rfl
  | cancelRecv id =>
      simp only [TcpSequencing.step, TcpSequencing.Connected.recvCancel] at taken
      split at taken
      · rename_i found
        cases taken
        exact if_pos found
      · cases taken
  | cancelBySeq id =>
      simp only [TcpSequencing.step, TcpSequencing.Connected.recvBySeqCancel] at taken
      split at taken
      · rename_i entry found
        cases taken
        simp only [tcpOp, Follows, Option.elim_some, SeqFront.step, tcpFront, found]
      · cases taken
  | read bytes =>
      simp only [TcpSequencing.step] at taken
      split at taken
      · cases taken
      · exact tcp_follows_read taken
  | back =>
      simp only [TcpSequencing.step] at taken
      split at taken
      · cases taken
        rfl
      · cases taken

theorem tcpRecvPacket_framing (connection : TcpSequencing.Connected Seq) (packet : List Byte) :
    (connection.tcpRecvPacket less getter packet).framing = connection.framing := by
  unfold TcpSequencing.Connected.tcpRecvPacket
  dsimp only
  split
  · rfl
  · split
    · split <;> rfl
    · rfl

theorem tcp_handed_read {bytes : List Byte}
    (taken : connection.tcpRecvCb2 less getter bytes = some next) :
    connection.framing.handed ++
        (shown (tcpFront connection) (tcpRead connection bytes)).filterMap Event.bytes =
      next.framing.handed := by
  obtain ⟨framed, framing, rest⟩ := Option.bind_eq_some_iff.mp taken
  simp only [tcpRead, framing, Option.bind_some]
  split at rest
  · cases rest
  · rcases TcpSequencing.step_completed framing with ⟨open_, same⟩ | ⟨packet, -, full, more⟩
    · simp only [open_] at rest ⊢
      cases rest
      simp [shown, same]
    · simp only [full] at rest ⊢
      cases rest
      rw [tcpRecvPacket_framing, more]
      simp [shown, events, Event.bytes]

theorem tcp_handed (label : TcpSequencing.Label Seq)
    (taken : TcpSequencing.step less getter connection label = some next) :
    connection.framing.handed ++ (tcpShown connection label).filterMap Event.bytes =
      next.framing.handed := by
  cases label with
  | recv buf len =>
      simp only [TcpSequencing.step, TcpSequencing.Connected.recvRun] at taken
      split at taken
      · cases taken
      · cases taken
        simp [tcpShown, shown, tcpOp, events, Event.bytes]
  | recvBySeq seq buf len =>
      simp only [TcpSequencing.step, TcpSequencing.Connected.recvBySeqRun] at taken
      split at taken
      · cases taken
      · cases taken
        simp [tcpShown, shown, tcpOp, events, Event.bytes]
  | cancelRecv id =>
      simp only [TcpSequencing.step, TcpSequencing.Connected.recvCancel] at taken
      split at taken
      · cases taken
        simp [tcpShown, shown, tcpOp, events, Event.bytes]
      · cases taken
  | cancelBySeq id =>
      simp only [TcpSequencing.step, TcpSequencing.Connected.recvBySeqCancel] at taken
      split at taken
      · rename_i entry found
        cases taken
        simp [tcpShown, shown, tcpOp, tcpFront, events, found, Event.bytes]
      · cases taken
  | read bytes =>
      simp only [TcpSequencing.step] at taken
      split at taken
      · cases taken
      · exact tcp_handed_read taken
  | back =>
      simp only [TcpSequencing.step] at taken
      split at taken
      · cases taken
        simp [tcpShown, shown, tcpOp]
      · cases taken

theorem tcp_packets {labels : List (TcpSequencing.Label Seq)}
    {last : TcpSequencing.Connected Seq}
    (run : replay (TcpSequencing.step less getter) connection labels = some last) :
    last.framing.handed = connection.framing.handed ++
      (observed (TcpSequencing.step less getter) tcpShown connection labels).filterMap
        Event.bytes := by
  induction labels generalizing connection with
  | nil =>
      cases run
      simp [observed]
  | cons label rest ih =>
      obtain ⟨next, taken, tail⟩ := replay_cons run
      simp only [observed, taken, Option.elim_some, List.filterMap_append]
      rw [ih tail, ← List.append_assoc, tcp_handed label taken]

theorem tcp_traced [IsStrictWeakOrder Seq less] {board : Board Seq}
    {labels : List (TcpSequencing.Label Seq)} {last : TcpSequencing.Connected Seq}
    (traced : Traced less (tcpFront connection) board)
    (run : replay (TcpSequencing.step less getter) connection labels = some last) :
    ∃ after, replay (SeqBoard.step less getter) board
        (observed (TcpSequencing.step less getter) tcpShown connection labels) = some after ∧
      Traced less (tcpFront last) after := by
  apply replay_simulates tcpShown (fun connection => Traced less (tcpFront connection)) _ traced run
  intro state label next board traced taken
  exact traced_follows traced (tcp_follows label taken)

end Tcp

section Dispatch

variable {Seq : Type u} (less : Seq → Seq → Prop) [DecidableRel less] (getter : SeqGetter Seq)

/-- What some events do to the board: every packet ends in one way, no receiver is served
twice, and the counters account for the packets that reached nobody. -/
structure Dispatched (first : Board Seq) (events : List (Event Seq)) (final : Board Seq) :
    Prop where
  run : replay (SeqBoard.step less getter) first events = some final
  received : final.fates.length = first.fates.length + events.countP Event.isPacket
  once : final.served.Nodup
  counted : final.fates.length = final.served.length + final.unrecv + final.failed

variable {less getter}

theorem dispatched_run {first final : Board Seq} {events : List (Event Seq)}
    (run : replay (SeqBoard.step less getter) first events = some final) (sound : Sound final) :
    Dispatched less getter first events final where
  run := run
  received := fates_run run
  once := sound.nodup.sublist (List.sublist_append_left _ _)
  counted := sound_counted sound

theorem traced_new (seq : Seq) :
    Traced less
      { seqer := { curSeq := seq }, queue := [], waiting := [], cUnrecv := 0, cFailed := 0,
        next := 0, fates := [] }
      { curSeq := seq } := by
  refine ⟨?_, sound_new seq⟩
  exact {
    mirrors := mirrors_nil
    curSeq := rfl
    queue := rfl
    unrecv := rfl
    failed := rfl
    next := rfl
    fates := rfl
    known := by simp
    fresh := by simp
    distinct := by simp }

variable [Inhabited Seq]

theorem udp_traced [IsStrictWeakOrder Seq less] {board : Board Seq}
    {labels : List (UdpSocket.Label Seq)} {socket last : UdpSocket.Udp Seq}
    (traced : Traced less (udpFront socket) board)
    (run : replay (UdpSocket.step less getter) socket labels = some last) :
    ∃ after, replay (SeqBoard.step less getter) board
        (observed (UdpSocket.step less getter) udpShown socket labels) = some after ∧
      Traced less (udpFront last) after := by
  apply replay_simulates udpShown (fun socket => Traced less (udpFront socket)) _ traced run
  intro state label next board traced taken
  exact traced_follows traced (udp_follows label taken)

theorem moded_run {labels : List (UdpSocket.Label Seq)} {last : UdpSocket.Udp Seq}
    (run : replay (UdpSocket.step less getter) {} labels = some last) : Moded last :=
  replay_always Moded (fun _ label _ moded taken => moded_step moded label taken)
    ⟨rfl, fun mode => by cases mode⟩ run

theorem udp_dispatched [IsStrictWeakOrder Seq less] {earlier labels : List (UdpSocket.Label Seq)}
    {start last : UdpSocket.Udp Seq}
    (reached : replay (UdpSocket.step less getter) {} earlier = some start)
    (mode : start.receiving = .recvBySeq) (dispatching : ∀ label ∈ labels, UdpDispatching label)
    (run : replay (UdpSocket.step less getter) start labels = some last) :
    ∃ first final, replay (SeqBoard.step less getter) { curSeq := default }
        (observed (UdpSocket.step less getter) udpShown {} earlier) = some first ∧
      Shows less (udpFront start) first ∧ Shows less (udpFront last) final ∧
      Dispatched less getter first (labels.flatMap udpEvents) final := by
  obtain ⟨first, before, shows_, sound⟩ := udp_traced (traced_new default) reached
  obtain ⟨final, later, shown_, kept⟩ := udp_traced ⟨shows_, sound⟩ run
  have moded := moded_run reached
  rw [routed_observed moded ⟨moded.2 mode, Or.inl mode⟩ dispatching run] at later
  exact ⟨first, final, before, shows_, shown_, dispatched_run later kept⟩

theorem tcp_dispatched [IsStrictWeakOrder Seq less]
    {earlier labels : List (TcpSequencing.Label Seq)} {framing : PacketFraming.Connected}
    {start last : TcpSequencing.Connected Seq}
    (reached : replay (TcpSequencing.step less getter) (TcpSequencing.bound framing) earlier =
      some start)
    (run : replay (TcpSequencing.step less getter) start labels = some last) :
    ∃ first final, replay (SeqBoard.step less getter) { curSeq := default }
        (observed (TcpSequencing.step less getter) tcpShown (TcpSequencing.bound framing)
          earlier) = some first ∧
      Shows less (tcpFront start) first ∧ Shows less (tcpFront last) final ∧
      Dispatched less getter first
        (observed (TcpSequencing.step less getter) tcpShown start labels) final := by
  obtain ⟨first, before, shows_, sound⟩ := tcp_traced (traced_new default) reached
  obtain ⟨final, later, shown_, kept⟩ := tcp_traced ⟨shows_, sound⟩ run
  exact ⟨first, final, before, shows_, shown_, dispatched_run later kept⟩

omit [Inhabited Seq] in
theorem tcp_read_packet {connection next : TcpSequencing.Connected Seq} {chunk packet : List Byte}
    (taken : connection.tcpRecvCb2 less getter chunk = some next)
    (handed : next.framing.handed = connection.framing.handed ++ [packet]) :
    tcpRead connection chunk = some (.packet packet) := by
  obtain ⟨framed, framing, -⟩ := Option.bind_eq_some_iff.mp taken
  have shows_ := tcp_handed_read taken
  rw [handed, List.append_cancel_left_eq] at shows_
  simp only [tcpRead, framing, Option.bind_some] at shows_ ⊢
  cases full : TcpSequencing.completed connection.framing framed with
  | none => simp [full, shown] at shows_
  | some other => simpa [full, shown, events, Event.bytes] using shows_

/-- On the same receivers and counters the two callbacks do the same with the same packet. -/
theorem same_choice {socket after : UdpSocket.Udp Seq}
    {connection next : TcpSequencing.Connected Seq} {bytes chunk : List Byte}
    {addr : UdpSocket.SockAddr} (same : udpFront socket = tcpFront connection)
    (mode : socket.reading = some .cb1) (nonempty : bytes ≠ [])
    (taken : UdpSocket.step less getter socket (.datagram bytes addr) = some after)
    (read : TcpSequencing.step less getter connection (.read chunk) = some next)
    (handed : next.framing.handed =
      connection.framing.handed ++ [bytes.take UdpSocket.routingBufSize]) :
    udpFront after = tcpFront next := by
  have length : UdpSocket.routingBufSize ≠ 0 := by decide
  have datagram := udp_follows _ taken
  have packet := tcp_follows _ read
  simp only [TcpSequencing.step] at read
  split at read
  · cases read
  · simp only [udpOp, udpDatagram, mode, List.take_eq_nil_iff, length, nonempty, false_or,
      if_false] at datagram
    rw [same] at datagram
    simp only [tcpOp, tcp_read_packet read handed] at packet
    exact Option.some.inj (datagram.symm.trans packet)

/-- Every run of a socket and of a connection in recv_by_seq mode is a run of the board: each
packet goes to the earliest registration under its key, else to the oldest `recv`, else to a
counter. The two callbacks choose alike. -/
theorem seq_dispatch [IsStrictWeakOrder Seq less] :
    (∀ (earlier labels : List (UdpSocket.Label Seq)) (start last : UdpSocket.Udp Seq),
      replay (UdpSocket.step less getter) {} earlier = some start →
      start.receiving = .recvBySeq → (∀ label ∈ labels, UdpDispatching label) →
      replay (UdpSocket.step less getter) start labels = some last →
        ∃ first final, replay (SeqBoard.step less getter) { curSeq := default }
            (observed (UdpSocket.step less getter) udpShown {} earlier) = some first ∧
          Shows less (udpFront start) first ∧ Shows less (udpFront last) final ∧
          Dispatched less getter first (labels.flatMap udpEvents) final) ∧
    (∀ (framing : PacketFraming.Connected) (earlier labels : List (TcpSequencing.Label Seq))
      (start last : TcpSequencing.Connected Seq),
      replay (TcpSequencing.step less getter) (TcpSequencing.bound framing) earlier =
        some start →
      replay (TcpSequencing.step less getter) start labels = some last →
        ∃ first final, replay (SeqBoard.step less getter) { curSeq := default }
            (observed (TcpSequencing.step less getter) tcpShown (TcpSequencing.bound framing)
              earlier) = some first ∧
          Shows less (tcpFront start) first ∧ Shows less (tcpFront last) final ∧
          Dispatched less getter first
            (observed (TcpSequencing.step less getter) tcpShown start labels) final ∧
          last.framing.handed = start.framing.handed ++
            (observed (TcpSequencing.step less getter) tcpShown start labels).filterMap
              Event.bytes) ∧
    (∀ (socket after : UdpSocket.Udp Seq) (connection next : TcpSequencing.Connected Seq)
      (bytes chunk : List Byte) (addr : UdpSocket.SockAddr),
      udpFront socket = tcpFront connection → socket.reading = some .cb1 → bytes ≠ [] →
      UdpSocket.step less getter socket (.datagram bytes addr) = some after →
      TcpSequencing.step less getter connection (.read chunk) = some next →
      next.framing.handed =
        connection.framing.handed ++ [bytes.take UdpSocket.routingBufSize] →
        udpFront after = tcpFront next) := by
  refine ⟨?_, ?_, ?_⟩
  · intro earlier labels start last reached mode dispatching run
    exact udp_dispatched reached mode dispatching run
  · intro framing earlier labels start last reached run
    obtain ⟨first, final, before, shows_, shown_, dispatched⟩ := tcp_dispatched reached run
    exact ⟨first, final, before, shows_, shown_, dispatched, tcp_packets run⟩
  · intro socket after connection next bytes chunk addr same mode nonempty taken read handed
    exact same_choice same mode nonempty taken read handed

end Dispatch

/-- Two registrations under one key and a `recv`, then four datagrams: the last one finds
nobody. -/
def fourDatagrams : List (UdpSocket.Label Nat) :=
  [.recvBySeq 5 false 0, .recv true 1, .datagram [5, 1] (.inet []), .back,
    .datagram [6, 2] (.inet []), .back, .datagram [5, 3] (.inet []), .back,
    .datagram [5, 4] (.inet [])]

theorem seq_dispatch_four : ∃ first final,
    Dispatched (· < ·) UdpRouting.firstByte first (fourDatagrams.flatMap udpEvents) final ∧
      final.unrecv = 1 := by
  have order : IsStrictWeakOrder Nat (· < ·) := isStrictWeakOrder_of_isOrderConnected
  have reached : (replay (UdpSocket.step (· < ·) UdpRouting.firstByte) {}
      [.bindSeqer, .recvBySeq 5 true 8]).isSome := by decide
  have mode : ((replay (UdpSocket.step (· < ·) UdpRouting.firstByte) {}
      [.bindSeqer, .recvBySeq 5 true 8]).get reached).receiving = .recvBySeq := by
    decide +revert
  have ran : (replay (UdpSocket.step (· < ·) UdpRouting.firstByte)
      ((replay (UdpSocket.step (· < ·) UdpRouting.firstByte) {}
        [.bindSeqer, .recvBySeq 5 true 8]).get reached) fourDatagrams).isSome := by
    decide +revert
  have missed : ((replay (UdpSocket.step (· < ·) UdpRouting.firstByte)
      ((replay (UdpSocket.step (· < ·) UdpRouting.firstByte) {}
        [.bindSeqer, .recvBySeq 5 true 8]).get reached) fourDatagrams).get ran).cUnrecv = 1 := by
    decide +revert
  obtain ⟨first, final, -, -, shows_, dispatched⟩ := seq_dispatch.1 _ fourDatagrams _ _
    (Option.some_get reached).symm mode (by simp [fourDatagrams, UdpDispatching])
    (Option.some_get ran).symm
  exact ⟨first, final, dispatched, shows_.unrecv.symm.trans missed⟩

end Cocoflow.SeqDispatch
