import Mathlib.Data.List.Basic
import Mathlib.Data.List.Nodup
import Mathlib.Data.List.Perm.Subperm
import Mathlib.Order.Defs.Unbundled
import Cocoflow.LabelledRuns
import Cocoflow.StableMultimap
import Cocoflow.TcpConnection
import Cocoflow.Sequencer

/-!
What receiving through a sequencer is for. The registrations wait in the order in which they
were made and the receivers without a key in the order of their requests. A packet goes to
the earliest registration under its key, else to the oldest receiver without one, else it is
counted. `dropKey` and `plain` are not part of that purpose: they say what the cancellation
of a registration and a read past the sequencer do to the same lists.
-/

namespace Cocoflow.SeqBoard

open LabelledRuns StableMultimap TcpConnection Sequencer

universe u

structure Board (Seq : Type u) where
  pending : List (Seq × Receiver) := []
  queue : List Receiver := []
  curSeq : Seq
  unrecv : Nat := 0
  failed : Nat := 0
  next : Nat := 0
  fates : List (Fate Seq Nat) := []

inductive Event (Seq : Type u) where
  | register (seq : Seq) (buf : Bool) (len : Nat)
  | recv (buf : Bool) (len : Nat)
  | cancelRecv (id : Nat)
  | dropKey (seq : Seq)
  | packet (bytes : List Byte)
  | plain

def Event.isPacket {Seq : Type u} : Event Seq → Bool
  | .packet _ | .plain => true
  | _ => false

def Event.bytes {Seq : Type u} : Event Seq → Option (List Byte)
  | .packet bytes => some bytes
  | _ => none

section Steps

variable {Seq : Type u} (less : Seq → Seq → Prop) [DecidableRel less] (getter : SeqGetter Seq)

/-- The registration that a packet belongs to. -/
def Board.chosen (board : Board Seq) (bytes : List Byte) : Option (Seq × Receiver) :=
  let got := getter bytes board.curSeq
  if 0 ≤ got.1 then find? less got.2 board.pending else none

def Board.packet (board : Board Seq) (bytes : List Byte) : Board Seq :=
  let got := getter bytes board.curSeq
  let read := { board with curSeq := got.2 }
  match board.chosen less getter bytes, board.queue with
  | some entry, _ => { read with
      pending := eraseFirst less got.2 board.pending
      fates := board.fates ++ [.bySeq entry.2.id] }
  | none, receiver :: rest => { read with
      queue := rest
      fates := board.fates ++ [.recv receiver.id] }
  | none, [] =>
      if 0 ≤ got.1 then { read with
        unrecv := board.unrecv + 1
        fates := board.fates ++ [.unrecv got.2] }
      else { read with
        failed := board.failed + 1
        fates := board.fates ++ [.failed got.1] }

def step (board : Board Seq) : Event Seq → Option (Board Seq)
  | .register seq buf len => some { board with
      pending := board.pending ++ [(seq, { id := board.next, buf := buf, len := len })]
      next := board.next + 1 }
  | .recv buf len => some { board with
      queue := board.queue ++ [{ id := board.next, buf := buf, len := len }]
      next := board.next + 1 }
  | .cancelRecv id =>
      if ∃ receiver ∈ board.queue, receiver.id = id then
        some { board with queue := board.queue.filter fun other => other.id ≠ id }
      else none
  | .dropKey seq => some { board with pending := eraseKey less seq board.pending }
  | .packet bytes => some (board.packet less getter bytes)
  | .plain =>
      match board.queue with
      | [] => none
      | receiver :: rest => some { board with
          queue := rest
          fates := board.fates ++ [.recv receiver.id] }

def Board.served (board : Board Seq) : List Nat := board.fates.filterMap Fate.delivered

def Board.ids (board : Board Seq) : List Nat :=
  board.served ++ (board.pending.map (fun entry => entry.2.id) ++ board.queue.map Receiver.id)

/-- Every receiver is served at most once, and every packet is accounted for. -/
structure Sound (board : Board Seq) : Prop where
  nodup : board.ids.Nodup
  fresh : ∀ id ∈ board.ids, id < board.next
  unrecv : board.unrecv = board.fates.countP Fate.isUnrecv
  failed : board.failed = board.fates.countP Fate.isFailed

end Steps

section Soundness

variable {Seq : Type u} {less : Seq → Seq → Prop} [DecidableRel less] {getter : SeqGetter Seq}
  {board after : Board Seq}

omit [DecidableRel less] in
theorem sound_new (seq : Seq) : Sound { curSeq := seq } where
  nodup := List.nodup_nil
  fresh := by simp [Board.ids, Board.served]
  unrecv := rfl
  failed := rfl

theorem sound_counted (sound : Sound board) :
    board.fates.length = board.served.length + board.unrecv + board.failed := by
  rw [sound.unrecv, sound.failed]
  exact Fate.length_eq board.fates

theorem sound_moved (sound : Sound board) (moved : after.ids.Subperm board.ids)
    (next : after.next = board.next)
    (unrecv : after.unrecv = after.fates.countP Fate.isUnrecv)
    (failed : after.failed = after.fates.countP Fate.isFailed) :
    Sound after where
  nodup := by
    obtain ⟨part, same, inside⟩ := moved
    exact same.nodup_iff.mp (sound.nodup.sublist inside)
  fresh := by
    intro id member
    rw [next]
    exact sound.fresh id (moved.subset member)
  unrecv := unrecv
  failed := failed

theorem sound_joined (sound : Sound board) (joined : after.ids.Perm (board.next :: board.ids))
    (next : after.next = board.next + 1)
    (unrecv : after.unrecv = after.fates.countP Fate.isUnrecv)
    (failed : after.failed = after.fates.countP Fate.isFailed) :
    Sound after where
  nodup := by
    rw [joined.nodup_iff, List.nodup_cons]
    exact ⟨fun member => Nat.lt_irrefl _ (sound.fresh _ member), sound.nodup⟩
  fresh := by
    intro id member
    rw [next]
    rcases List.mem_cons.mp (joined.mem_iff.mp member) with rfl | earlier
    · exact Nat.lt_succ_self _
    · exact Nat.lt_succ_of_lt (sound.fresh id earlier)
  unrecv := unrecv
  failed := failed

theorem ids_head {receiver : Receiver} {rest : List Receiver} {seq : Seq}
    (queue : board.queue = receiver :: rest) :
    ({ board with
      curSeq := seq
      queue := rest
      fates := board.fates ++ [.recv receiver.id] } : Board Seq).ids.Perm board.ids := by
  unfold Board.ids Board.served
  rw [queue]
  simp only [List.filterMap_append, List.filterMap_cons, Fate.delivered_recv, List.filterMap_nil,
    List.map_cons, List.append_assoc, List.singleton_append]
  exact (List.perm_middle.symm).append_left _

theorem ids_chosen {bytes : List Byte} {entry : Seq × Receiver}
    (chosen : board.chosen less getter bytes = some entry) :
    ({ board with
      curSeq := (getter bytes board.curSeq).2
      pending := eraseFirst less (getter bytes board.curSeq).2 board.pending
      fates := board.fates ++ [.bySeq entry.2.id] } : Board Seq).ids.Perm board.ids := by
  unfold Board.chosen at chosen
  dsimp only at chosen
  split at chosen
  · obtain ⟨-, before, later, split, left⟩ := find?_split chosen
    unfold Board.ids Board.served
    rw [left, split]
    simp only [List.filterMap_append, List.filterMap_cons, Fate.delivered_bySeq, List.filterMap_nil,
      List.map_append, List.map_cons, List.append_assoc, List.singleton_append]
    exact (List.perm_middle.symm).append_left _
  · cases chosen

theorem sound_packet (sound : Sound board) (bytes : List Byte) :
    Sound (board.packet less getter bytes) := by
  have unrecv := sound.unrecv
  have failed := sound.failed
  unfold Board.packet
  dsimp only
  split
  · rename_i chosen
    apply sound_moved sound (ids_chosen chosen).subperm rfl
    · simpa [Fate.isUnrecv] using unrecv
    · simpa [Fate.isFailed] using failed
  · rename_i receiver rest chosen queue
    apply sound_moved sound (ids_head queue).subperm rfl
    · simpa [Fate.isUnrecv] using unrecv
    · simpa [Fate.isFailed] using failed
  · split
    · refine sound_moved sound ?_ rfl ?_ ?_
      · simp [Board.ids, Board.served, List.filterMap_cons, List.Subperm.refl]
      · simpa [Fate.isUnrecv] using unrecv
      · simpa [Fate.isFailed] using failed
    · refine sound_moved sound ?_ rfl ?_ ?_
      · simp [Board.ids, Board.served, List.filterMap_cons, List.Subperm.refl]
      · simpa [Fate.isUnrecv] using unrecv
      · simpa [Fate.isFailed] using failed

theorem sound_step (sound : Sound board) (event : Event Seq)
    (taken : step less getter board event = some after) : Sound after := by
  cases event with
  | register seq buf len =>
      cases taken
      refine sound_joined sound ?_ rfl sound.unrecv sound.failed
      simp only [Board.ids, Board.served, List.map_append, List.map_cons, List.map_nil,
        List.append_assoc, List.singleton_append]
      rw [← List.append_assoc, ← List.append_assoc]
      exact List.perm_middle
  | recv buf len =>
      cases taken
      refine sound_joined sound ?_ rfl sound.unrecv sound.failed
      simp only [Board.ids, Board.served, List.map_append, List.map_cons, List.map_nil]
      rw [← List.append_assoc _ _ [board.next], ← List.append_assoc _ _ [board.next]]
      exact List.perm_append_singleton _ _
  | cancelRecv id =>
      simp only [step] at taken
      split at taken
      · cases taken
        refine sound_moved sound (List.Sublist.subperm ?_) rfl sound.unrecv sound.failed
        exact ((List.filter_sublist.map _).append_left _).append_left _
      · cases taken
  | dropKey seq =>
      cases taken
      refine sound_moved sound (List.Sublist.subperm ?_) rfl sound.unrecv sound.failed
      exact ((List.filter_sublist.map _).append_right _).append_left _
  | packet bytes =>
      cases taken
      exact sound_packet sound bytes
  | plain =>
      simp only [step] at taken
      split at taken
      · cases taken
      · rename_i receiver rest queue
        cases taken
        apply sound_moved sound (ids_head queue).subperm rfl
        · simpa [Fate.isUnrecv] using sound.unrecv
        · simpa [Fate.isFailed] using sound.failed

theorem sound_run (sound : Sound board) {events : List (Event Seq)}
    (run : replay (step less getter) board events = some after) : Sound after :=
  replay_always Sound (fun _ event _ sound taken => sound_step sound event taken) sound run

theorem fates_step (event : Event Seq) (taken : step less getter board event = some after) :
    after.fates.length = board.fates.length + if event.isPacket then 1 else 0 := by
  cases event with
  | register seq buf len =>
      cases taken
      rfl
  | recv buf len =>
      cases taken
      rfl
  | cancelRecv id =>
      simp only [step] at taken
      split at taken
      · cases taken
        rfl
      · cases taken
  | dropKey seq =>
      cases taken
      rfl
  | packet bytes =>
      cases taken
      unfold Board.packet
      dsimp only
      split
      · simp [Event.isPacket]
      · simp [Event.isPacket]
      · split <;> simp [Event.isPacket]
  | plain =>
      simp only [step] at taken
      split at taken
      · cases taken
      · cases taken
        simp [Event.isPacket]

theorem fates_run {events : List (Event Seq)}
    (run : replay (step less getter) board events = some after) :
    after.fates.length = board.fates.length + events.countP Event.isPacket := by
  induction events generalizing board with
  | nil =>
      cases run
      rfl
  | cons event rest ih =>
      obtain ⟨middle, taken, tail⟩ := replay_cons run
      rw [ih tail, fates_step event taken, List.countP_cons]
      omega

end Soundness

end Cocoflow.SeqBoard
