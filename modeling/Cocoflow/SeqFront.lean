import Mathlib.Data.List.Basic
import Mathlib.Data.List.Nodup
import Mathlib.Data.List.Pairwise
import Mathlib.Order.Defs.Unbundled
import Cocoflow.LabelledRuns
import Cocoflow.StableMultimap
import Cocoflow.TcpConnection
import Cocoflow.Sequencer
import Cocoflow.SeqBoard

/-!
The part of a `udp` object and of a `tcp::connected` that has to do with the sequencer, in
the words of the source: the container `seq_mapping`, the queue of plain receivers, the
counters and the suspended tasks. Both objects show their steps here, and here the steps are
compared with the `Board`.
-/

namespace Cocoflow.SeqFront

open LabelledRuns StableMultimap TcpConnection Sequencer SeqBoard

universe u

structure Front (Seq : Type u) where
  seqer : Seqer Seq Receiver
  queue : List Receiver
  waiting : List (Seq × Receiver)
  cUnrecv : Nat
  cFailed : Nat
  next : Nat
  fates : List (Fate Seq Nat)

inductive Op (Seq : Type u) where
  | recvBySeq (seq : Seq) (buf : Bool) (len : Nat)
  | recv (buf : Bool) (len : Nat)
  | cancelRecv (id : Nat)
  | cancelBySeq (id : Nat)
  | packet (bytes : List Byte)
  | plain

section Steps

variable {Seq : Type u} (less : Seq → Seq → Prop) [DecidableRel less] (getter : SeqGetter Seq)

/-- What `udp_recv_cb1` and `tcp_recv_cb2` do with a packet. -/
def Front.packet (front : Front Seq) (bytes : List Byte) : Front Seq :=
  let unwrapped := front.seqer.unwrap less getter bytes
  let taken := { front with seqer := unwrapped.2.2 }
  match unwrapped.2.1, front.queue with
  | some rbs, _ => { taken with
      waiting := front.waiting.filter fun entry => entry.2.id ≠ rbs.id
      fates := front.fates ++ [.bySeq rbs.id] }
  | none, receiver :: rest => { taken with
      queue := rest
      fates := front.fates ++ [.recv receiver.id] }
  | none, [] =>
      if 0 ≤ unwrapped.1 then { taken with
        cUnrecv := front.cUnrecv + 1
        fates := front.fates ++ [.unrecv unwrapped.2.2.curSeq] }
      else { taken with
        cFailed := front.cFailed + 1
        fates := front.fates ++ [.failed unwrapped.1] }

def step (front : Front Seq) : Op Seq → Option (Front Seq)
  | .recvBySeq seq buf len =>
      let receiver : Receiver := { id := front.next, buf := buf, len := len }
      some { front with
        seqer := front.seqer.insert less seq receiver
        waiting := front.waiting ++ [(seq, receiver)]
        next := front.next + 1 }
  | .recv buf len => some { front with
      queue := front.queue ++ [{ id := front.next, buf := buf, len := len }]
      next := front.next + 1 }
  | .cancelRecv id =>
      if ∃ receiver ∈ front.queue, receiver.id = id then
        some { front with queue := front.queue.filter fun other => other.id ≠ id }
      else none
  | .cancelBySeq id =>
      match front.waiting.find? fun entry => entry.2.id = id with
      | some entry => some { front with
          seqer := front.seqer.erase less entry.1
          waiting := front.waiting.filter fun other => other.2.id ≠ id }
      | none => none
  | .packet bytes => some (front.packet less getter bytes)
  | .plain =>
      match front.queue with
      | [] => none
      | receiver :: rest => some { front with
          queue := rest
          fates := front.fates ++ [.recv receiver.id] }

def events (front : Front Seq) : Op Seq → List (Event Seq)
  | .recvBySeq seq buf len => [.register seq buf len]
  | .recv buf len => [.recv buf len]
  | .cancelRecv id => [.cancelRecv id]
  | .cancelBySeq id =>
      match front.waiting.find? fun entry => entry.2.id = id with
      | some entry => [.dropKey entry.1]
      | none => []
  | .packet bytes => [.packet bytes]
  | .plain => [.plain]

/-- The board lists the registrations of the container in the order in which they were made;
each belongs to a suspended task. -/
structure Shows (front : Front Seq) (board : Board Seq) : Prop where
  mirrors : Mirrors less front.seqer.mapping board.pending
  curSeq : front.seqer.curSeq = board.curSeq
  queue : front.queue = board.queue
  unrecv : front.cUnrecv = board.unrecv
  failed : front.cFailed = board.failed
  next : front.next = board.next
  fates : front.fates = board.fates
  known : ∀ entry ∈ board.pending, entry ∈ front.waiting
  fresh : ∀ entry ∈ front.waiting, entry.2.id < front.next
  distinct : (front.waiting.map fun entry => entry.2.id).Nodup

end Steps

section Refinement

variable {Seq : Type u} {less : Seq → Seq → Prop} [DecidableRel less] {getter : SeqGetter Seq}
  {front after : Front Seq} {board : Board Seq}

theorem shows_picked (shows_ : Shows less front board) (bytes : List Byte) :
    front.seqer.picked less getter bytes = board.chosen less getter bytes := by
  unfold Seqer.picked Board.chosen
  rw [shows_.curSeq, mirrors_find shows_.mirrors]

theorem pending_distinct (sound : Sound board) :
    (board.pending.map fun entry => entry.2.id).Nodup := by
  have nodup := sound.nodup
  unfold Board.ids at nodup
  exact (nodup.sublist (List.sublist_append_right _ _)).sublist (List.sublist_append_left _ _)

theorem known_filter (shows_ : Shows less front board) {entry : Seq × Receiver}
    {left : List (Seq × Receiver)} (task : entry ∈ front.waiting)
    (inside : ∀ other ∈ left, other ∈ board.pending) (gone : entry ∉ left) :
    ∀ other ∈ left, other ∈ front.waiting.filter fun other => other.2.id ≠ entry.2.id := by
  intro other member
  have waits := shows_.known other (inside other member)
  rw [List.mem_filter]
  refine ⟨waits, ?_⟩
  simp only [decide_eq_true_eq]
  intro same
  rw [List.inj_on_of_nodup_map shows_.distinct waits task same] at member
  exact gone member

theorem shows_packet (shows_ : Shows less front board) (sound : Sound board)
    [IsStrictWeakOrder Seq less] (bytes : List Byte) :
    Shows less (front.packet less getter bytes) (board.packet less getter bytes) := by
  have picks : front.seqer.picked less getter bytes = board.chosen less getter bytes :=
    shows_picked shows_ bytes
  unfold Front.packet Board.packet
  rw [← shows_.queue, ← shows_.curSeq]
  cases chosen : board.chosen less getter bytes with
  | some entry =>
      rw [chosen] at picks
      simp only [Seqer.unwrap_picked picks]
      obtain ⟨-, found⟩ := Seqer.picked_found picks
      rw [mirrors_find shows_.mirrors] at found
      obtain ⟨-, before, later, split, left⟩ := find?_split found
      refine { shows_ with
        mirrors := mirrors_eraseFirst _ shows_.mirrors
        curSeq := rfl
        queue := rfl
        fates := by rw [shows_.fates]
        known := ?_
        fresh := fun other stays => shows_.fresh other (List.mem_of_mem_filter stays)
        distinct := shows_.distinct.sublist (List.filter_sublist.map _) }
      apply known_filter shows_ (shows_.known entry (by simp [split]))
      · intro other stays
        exact List.mem_of_mem_eraseP stays
      · -- the board lists every registration once
        have once := (pending_distinct sound).of_map
        rw [split] at once
        rw [left]
        exact (List.nodup_middle.mp once).notMem
  | none =>
      rw [chosen] at picks
      simp only [Seqer.unwrap_unpicked picks]
      cases queue : front.queue with
      | cons receiver rest =>
          exact { shows_ with curSeq := rfl, queue := rfl, fates := by rw [shows_.fates] }
      | nil =>
          dsimp only
          split
          · exact { shows_ with
              curSeq := rfl
              queue := rfl
              unrecv := by rw [shows_.unrecv]
              fates := by rw [shows_.fates] }
          · exact { shows_ with
              curSeq := rfl
              queue := rfl
              failed := by rw [shows_.failed]
              fates := by rw [shows_.fates] }

theorem shows_recvBySeq (shows_ : Shows less front board) [IsStrictWeakOrder Seq less]
    (seq : Seq) (buf : Bool) (len : Nat) :
    Shows less
      { front with
        seqer := front.seqer.insert less seq { id := front.next, buf := buf, len := len }
        waiting := front.waiting ++ [(seq, { id := front.next, buf := buf, len := len })]
        next := front.next + 1 }
      { board with
        pending := board.pending ++ [(seq, { id := board.next, buf := buf, len := len })]
        next := board.next + 1 } where
  mirrors := by
    rw [← shows_.next]
    exact mirrors_insert _ shows_.mirrors
  curSeq := shows_.curSeq
  queue := shows_.queue
  unrecv := shows_.unrecv
  failed := shows_.failed
  next := by rw [shows_.next]
  fates := shows_.fates
  known := by
    rw [← shows_.next]
    intro entry member
    rcases List.mem_append.mp member with earlier | last
    · exact List.mem_append_left _ (shows_.known entry earlier)
    · exact List.mem_append_right _ last
  fresh := by
    intro entry member
    rcases List.mem_append.mp member with earlier | last
    · exact Nat.lt_succ_of_lt (shows_.fresh entry earlier)
    · rw [List.mem_singleton.mp last]
      exact Nat.lt_succ_self _
  distinct := by
    rw [List.map_append, List.nodup_append]
    refine ⟨shows_.distinct, List.nodup_singleton _, ?_⟩
    intro one member other again
    obtain ⟨entry, waits, rfl⟩ := List.mem_map.mp member
    rw [List.map_singleton, List.mem_singleton] at again
    rw [again]
    exact Nat.ne_of_lt (shows_.fresh entry waits)

theorem shows_cancelBySeq (shows_ : Shows less front board) [IsStrictWeakOrder Seq less]
    {entry : Seq × Receiver} (task : entry ∈ front.waiting) :
    Shows less
      { front with
        seqer := front.seqer.erase less entry.1
        waiting := front.waiting.filter fun other => other.2.id ≠ entry.2.id }
      { board with pending := eraseKey less entry.1 board.pending } :=
  { shows_ with
    mirrors := mirrors_eraseKey _ shows_.mirrors
    known := by
      apply known_filter shows_ task
      · intro other stays
        exact List.mem_of_mem_filter stays
      · intro stays
        obtain ⟨-, apart⟩ := List.mem_filter.mp stays
        simp [matching, equivalent_refl] at apart
    fresh := fun other stays => shows_.fresh other (List.mem_of_mem_filter stays)
    distinct := shows_.distinct.sublist (List.filter_sublist.map _) }

/-- The board follows every operation. -/
theorem shows_step [IsStrictWeakOrder Seq less] (shows_ : Shows less front board)
    (sound : Sound board) (op : Op Seq) (taken : step less getter front op = some after) :
    ∃ next, replay (SeqBoard.step less getter) board (events front op) = some next ∧
      Shows less after next := by
  cases op with
  | recvBySeq seq buf len =>
      cases taken
      exact ⟨_, rfl, shows_recvBySeq shows_ seq buf len⟩
  | recv buf len =>
      cases taken
      refine ⟨_, rfl, { shows_ with
        queue := by rw [shows_.queue, shows_.next]
        next := by rw [shows_.next]
        fresh := fun entry waits => Nat.lt_succ_of_lt (shows_.fresh entry waits) }⟩
  | cancelRecv id =>
      simp only [step] at taken
      split at taken
      · rename_i found
        cases taken
        rw [shows_.queue] at found
        refine ⟨_, by simp only [events, replay, SeqBoard.step, if_pos found]; rfl, ?_⟩
        exact { shows_ with queue := by rw [shows_.queue] }
      · cases taken
  | cancelBySeq id =>
      simp only [step] at taken
      split at taken
      · rename_i entry found
        cases taken
        obtain rfl : entry.2.id = id := by simpa using List.find?_some found
        refine ⟨_, by simp only [events, found, replay]; rfl, ?_⟩
        exact shows_cancelBySeq shows_ (List.mem_of_find?_eq_some found)
      · cases taken
  | packet bytes =>
      cases taken
      exact ⟨_, rfl, shows_packet shows_ sound bytes⟩
  | plain =>
      simp only [step] at taken
      split at taken
      · cases taken
      · rename_i receiver rest queue
        cases taken
        rw [shows_.queue] at queue
        refine ⟨_, by simp only [events, replay, SeqBoard.step, queue]; rfl, ?_⟩
        exact { shows_ with queue := rfl, fates := by rw [shows_.fates] }

end Refinement

end Cocoflow.SeqFront
