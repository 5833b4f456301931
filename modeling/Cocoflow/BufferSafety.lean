import Mathlib.Data.List.Basic
import Cocoflow.LabelledRuns
import Cocoflow.TcpConnection
import Cocoflow.BoundedMemory
import Cocoflow.RecvTill
import Cocoflow.BufferMemory

/-!
No copy of `recv_till` leaves its blocks and no size wraps. Every function has one triple: it
does not fault, it keeps the counters within their blocks, and its result is that of the same
function of `RecvTill` on the parts of the blocks that are in use. `run_refines` is there for the
results about `RecvTill`: through it they hold of the blocks in memory.
-/

namespace Cocoflow.BufferSafety

open LabelledRuns TcpConnection BoundedMemory BufferMemory

/-- What a waiting request has received is in front of its cursor. -/
def waiting (request : Request) : RecvTill.Request :=
  { id := request.id
    capacity := request.buf.length
    pattern := request.pattern
    data := request.buf.take request.cur
    left := request.left
    len := request.len }

def done (request : Request) : RecvTill.Request :=
  { waiting request with data := request.buf.take request.len }

def abstract (connection : Connected) : RecvTill.Connected :=
  { receiving := connection.receiving
    buf1 := connection.block.take connection.len1
    size1 := connection.size1
    allocated := connection.buf1.isSome
    queue := connection.queue.map waiting
    curAlloc := connection.curAlloc.map waiting
    asyncCancel := connection.asyncCancel
    asyncPending := connection.asyncPending
    standing := connection.standing
    received := connection.received
    completed := connection.completed.map done
    issued := connection.issued.map waiting }

def event : Label → RecvTill.Label
  | .issue buf pattern => .issue buf.length pattern
  | .cancel id => .cancel id
  | .read chunk => .read chunk
  | .fallback => .fallback
  | .back => .back

structure Sound (request : Request) : Prop where
  split : request.cur + request.left = request.buf.length
  waits : 0 < request.left
  whole : request.len = request.buf.length
  small : request.buf.length ≤ addressSpace
  named : request.pattern ≠ some []

structure Bounded (connection : Connected) : Prop where
  allocated : connection.block.length = connection.size1
  within : connection.len1 ≤ connection.size1
  small : connection.size1 ≤ addressSpace
  pending : ∀ request ∈ connection.curAlloc.toList ++ connection.queue, Sound request

section Remaining

variable {block : List Byte} {len1 count : Nat} {request : Request}

theorem Sound.advance {after : Request} (sound : Sound request) (short : count < request.left)
    (length : after.buf.length = request.buf.length) (cur : after.cur = request.cur + count)
    (left : after.left = request.left - count) (len : after.len = request.len)
    (pattern : after.pattern = request.pattern) : Sound after := by
  have divides := sound.split
  constructor
  case split => omega
  case waits => omega
  case whole => rw [len, length, sound.whole]
  case small =>
      rw [length]
      exact sound.small
  case named =>
      rw [pattern]
      exact sound.named

theorem safe_copy (inside : len1 ≤ block.length) (enough : count ≤ len1)
    (room : request.cur + count ≤ request.buf.length) :
    Safe (memcpy request.buf request.cur block 0 count) fun buf =>
      buf.length = request.buf.length ∧ buf.take (request.cur + count) =
        request.buf.take request.cur ++ (block.take len1).take count := by
  apply safe_mono (safe_memcpy room (by omega))
  rintro buf ⟨length, copied⟩
  refine ⟨length, ?_⟩
  rw [copied, List.drop_zero, List.take_take, Nat.min_eq_left enough]

theorem safe_memmove (inside : len1 ≤ block.length) (enough : count ≤ len1) :
    Safe (memmove block count (len1 - count)) fun after =>
      after.length = block.length ∧
        after.take (len1 - count) = (block.take len1).drop count := by
  unfold memmove
  split
  · rename_i nothing
    refine safe_pure ⟨rfl, ?_⟩
    rw [nothing, List.take_zero, List.drop_take, nothing, List.take_zero]
  · apply safe_mono (safe_memcpy (by omega) (by omega))
    rintro after ⟨length, moved⟩
    refine ⟨length, ?_⟩
    rw [Nat.zero_add] at moved
    rw [moved, List.take_zero, List.nil_append, List.drop_take]

/-- What `remaining` leaves: the block keeps its size, a request that still waits is sound, and
`RecvTill.remaining` has the same outcome. -/
structure Leaves (block : List Byte) (len1 : Nat) (request : Request) (outcome : Remaining) :
    Prop where
  length : outcome.block.length = block.length
  used : outcome.len1 ≤ block.length
  sound : outcome.finished = false → Sound outcome.request
  same : RecvTill.remaining (block.take len1) (waiting request) =
    some (outcome.finished, outcome.block.take outcome.len1,
      if outcome.finished then done outcome.request else waiting outcome.request)

/-- At the label `____remaining_fill` the residual holds at least `left` bytes. -/
theorem safe_remainingFill (sound : Sound request) (inside : len1 ≤ block.length)
    (enough : request.left ≤ len1)
    (jumps : RecvTill.remaining (block.take len1) (waiting request) =
      some (RecvTill.remainingFill (block.take len1) (waiting request))) :
    Safe (remainingFill block len1 request) (Leaves block len1 request) := by
  have room : request.cur + request.left ≤ request.buf.length := Nat.le_of_eq sound.split
  unfold remainingFill
  apply safe_bind (safe_copy inside enough room)
  rintro buf ⟨length, copied⟩
  apply safe_bind (safe_subtract enough)
  rintro rest rfl
  apply safe_bind (safe_memmove inside enough)
  rintro after ⟨kept, moved⟩
  refine safe_pure ⟨kept, Nat.le_trans (Nat.sub_le _ _) inside, Bool.noConfusion, ?_⟩
  have filled : buf.take request.len = request.buf.take request.cur ++
      (block.take len1).take request.left := by
    rw [sound.whole, ← sound.split]
    exact copied
  rw [jumps, moved]
  simp [RecvTill.remainingFill, done, waiting, filled, length]

theorem bufbuf_within {buf1 pattern : List Byte} {copy : Nat}
    (hit : RecvTill.bufbuf buf1 pattern = some copy) : copy ≤ buf1.length := by
  unfold RecvTill.bufbuf at hit
  split at hit
  · cases hit
  · split at hit
    · cases hit
      exact Nat.zero_le _
    · obtain ⟨offset, found, rfl⟩ := Option.map_eq_some_iff.mp hit
      have early := List.mem_range.mp (List.mem_of_find?_eq_some found)
      omega

theorem safe_remaining (sound : Sound request) (inside : len1 ≤ block.length) :
    Safe (remaining block len1 request) (Leaves block len1 request) := by
  unfold remaining
  apply safe_bind safe_require
  intro _ positive
  have used : (block.take len1).length = len1 := List.length_take_of_le inside
  have nonempty : block.take len1 ≠ [] := by
    rintro empty
    rw [empty] at used
    exact positive used.symm
  have divides := sound.split
  split
  · rename_i kind
    split
    · -- the bytes that were kept fill the request up
      rename_i enough
      apply safe_remainingFill sound inside enough
      simp [RecvTill.remaining, nonempty, waiting, kind, used, enough]
    · rename_i short
      apply safe_bind (safe_copy inside (Nat.le_refl len1) (by omega))
      rintro buf ⟨length, copied⟩
      apply safe_bind (safe_subtract (by omega))
      rintro left rfl
      refine safe_pure ⟨rfl, Nat.zero_le _, ?_, ?_⟩
      · intro _
        exact sound.advance (Nat.lt_of_not_le short) length rfl rfl rfl rfl
      · rw [List.take_take, Nat.min_self] at copied
        simp [RecvTill.remaining, nonempty, waiting, kind, used, short, copied, length]
  · rename_i pattern kind
    split
    · rename_i short
      refine safe_pure ⟨rfl, inside, fun _ => sound, ?_⟩
      simp [RecvTill.remaining, nonempty, waiting, kind, used, short]
    · rename_i long
      have named : 0 < pattern.length := List.length_pos_iff.mpr fun empty =>
        sound.named (kind.trans (congrArg some empty))
      unfold bufbuf
      rw [if_pos inside]
      rw [pure_bind]
      split
      · -- the bytes up to the end of the pattern are handed out
        rename_i copy hit
        have within : copy ≤ len1 := used ▸ bufbuf_within hit
        split
        · rename_i full
          apply safe_remainingFill sound inside (Nat.le_trans full within)
          simp [RecvTill.remaining, nonempty, waiting, kind, used, long, hit, full]
        · rename_i room
          apply safe_bind (safe_copy inside within (by omega))
          rintro buf ⟨length, copied⟩
          apply safe_bind (safe_subtract within)
          rintro rest rfl
          apply safe_bind (safe_memmove inside within)
          rintro after ⟨kept, moved⟩
          refine safe_pure ⟨kept, Nat.le_trans (Nat.sub_le _ _) inside, Bool.noConfusion, ?_⟩
          have front : request.cur ≤ request.buf.length := by omega
          simp [RecvTill.remaining, nonempty, waiting, done, kind, used, long, hit, room, moved,
            copied, length, front]
      · -- the last bytes stay, as they may begin the pattern
        rename_i miss
        apply safe_bind (safe_subtract (by omega))
        rintro behind rfl
        dsimp only
        split
        · rename_i full
          apply safe_remainingFill sound inside (by omega)
          simp [RecvTill.remaining, nonempty, waiting, kind, used, long, miss, full]
        · rename_i room
          apply safe_bind (safe_copy inside (by omega) (by omega))
          rintro buf ⟨length, copied⟩
          apply safe_bind (safe_subtract (by omega))
          rintro left rfl
          apply safe_bind (safe_subtract (by omega))
          rintro rest rfl
          apply safe_bind (safe_memmove inside (by omega))
          rintro after ⟨kept, moved⟩
          refine safe_pure ⟨kept, Nat.le_trans (Nat.sub_le _ _) inside, ?_, ?_⟩
          · intro _
            exact sound.advance (Nat.lt_of_not_le room) length rfl rfl rfl rfl
          · simp [RecvTill.remaining, nonempty, waiting, kind, used, long, miss, room, moved,
              copied, length]

end Remaining

section Connection

variable {connection : Connected} {request : Request}

/-- The next state is bounded, and `RecvTill` has it as its own next state. -/
def Refined (after : Option RecvTill.Connected) (next : Connected) : Prop :=
  Bounded next ∧ after = some (abstract next)

theorem Bounded.inside (bounded : Bounded connection) :
    connection.len1 ≤ connection.block.length := by
  rw [bounded.allocated]
  exact bounded.within

theorem Bounded.residual (bounded : Bounded connection) :
    (connection.block.take connection.len1).length = connection.len1 :=
  List.length_take_of_le bounded.inside

theorem Bounded.empty_iff (bounded : Bounded connection) :
    (abstract connection).buf1 = [] ↔ connection.len1 = 0 := by
  rw [← List.length_eq_zero_iff]
  exact iff_of_eq (congrArg (· = 0) bounded.residual)

theorem Bounded.queued (bounded : Bounded connection) {waits : Request}
    (member : waits ∈ connection.queue) : Sound waits :=
  bounded.pending waits (List.mem_append_right _ member)

theorem Bounded.free (bounded : Bounded connection) :
    sizeSub connection.size1 connection.len1 = connection.size1 - connection.len1 := by
  have small := bounded.small
  have within := bounded.within
  unfold addressSpace at small
  unfold sizeSub
  omega

theorem block_setBlock {block : List Byte} (length : block.length = connection.block.length) :
    (connection.setBlock block).block = block := by
  unfold Connected.setBlock Connected.block at *
  cases held : connection.buf1 with
  | none =>
      rw [held] at length
      exact (List.eq_nil_of_length_eq_zero length).symm
  | some _ => rfl

theorem Bounded.setBlock {block : List Byte} {len1 : Nat} (bounded : Bounded connection)
    (length : block.length = connection.block.length) (used : len1 ≤ connection.block.length) :
    Bounded { connection.setBlock block with len1 := len1 } := by
  constructor
  case allocated =>
      exact (congrArg List.length (block_setBlock length)).trans (length.trans bounded.allocated)
  case within => exact Nat.le_trans used (Nat.le_of_eq bounded.allocated)
  case small => exact bounded.small
  case pending => exact bounded.pending

theorem abstract_setBlock {block : List Byte} (len1 : Nat)
    (length : block.length = connection.block.length) :
    abstract { connection.setBlock block with len1 := len1 } =
      { abstract connection with buf1 := block.take len1 } := by
  have held := block_setBlock length
  unfold Connected.block at held
  simp only [abstract, Connected.block, held]
  simp [Connected.setBlock]

theorem Bounded.leave {len1 : Nat} {outcome : Remaining} (bounded : Bounded connection)
    (leaves : Leaves connection.block len1 request outcome) :
    Bounded (connection.leave outcome) := bounded.setBlock leaves.length leaves.used

theorem abstract_leave {len1 : Nat} {outcome : Remaining}
    (leaves : Leaves connection.block len1 request outcome) :
    abstract (connection.leave outcome) =
      { abstract connection with buf1 := outcome.block.take outcome.len1 } :=
  abstract_setBlock outcome.len1 leaves.length

theorem abstract_complete :
    abstract (connection.complete request) = (abstract connection).complete (done request) := by
  simp [abstract, Connected.complete, RecvTill.Connected.complete, Connected.block]

theorem abstract_queue (connection : Connected) (queue : List Request) (standing : Bool) :
    abstract { connection with queue := queue, standing := standing } =
      { abstract connection with queue := queue.map waiting, standing := standing } := rfl

theorem safe_enqueue (bounded : Bounded connection) (sound : Sound request) :
    Safe (connection.enqueue request)
      (Refined ((abstract connection).enqueue (waiting request))) := by
  have pending : ∀ waits ∈ connection.curAlloc.toList ++ (connection.queue ++ [request]),
      Sound waits := by
    intro waits member
    rw [← List.append_assoc] at member
    rcases List.mem_append.mp member with old | new
    · exact bounded.pending waits old
    · exact List.mem_singleton.mp new ▸ sound
  unfold Connected.enqueue
  cases mode : connection.receiving with
  | ready =>
      refine safe_pure ⟨⟨bounded.allocated, bounded.within, bounded.small, pending⟩, ?_⟩
      simp [RecvTill.Connected.enqueue, abstract, mode, Connected.block]
  | recvTill =>
      refine safe_pure ⟨⟨bounded.allocated, bounded.within, bounded.small, pending⟩, ?_⟩
      simp [RecvTill.Connected.enqueue, abstract, mode, Connected.block]
  | recv => exact safe_throw (by decide)
  | recvBySeq => exact safe_throw (by decide)

theorem safe_stopReading (bounded : Bounded connection) :
    Safe connection.stopReading (Refined (abstract connection).stopReading) := by
  unfold Connected.stopReading
  split
  · rename_i empty
    apply safe_bind safe_require
    intro _ handle
    refine safe_pure ⟨⟨bounded.allocated, bounded.within, bounded.small, bounded.pending⟩, ?_⟩
    simp [RecvTill.Connected.stopReading, abstract, empty, handle, Connected.block]
  · rename_i queued
    refine safe_pure ⟨⟨bounded.allocated, bounded.within, bounded.small, bounded.pending⟩, ?_⟩
    simp [RecvTill.Connected.stopReading, abstract, queued, Connected.block]

theorem checkRemaining_idle {abstracted : RecvTill.Connected}
    (idle : abstracted.buf1 = [] ∨ abstracted.queue = []) :
    abstracted.checkRemaining = abstracted.stopReading := by
  unfold RecvTill.Connected.checkRemaining
  split
  · rename_i residual queued
    rcases idle with empty | empty
    · rw [residual] at empty
      cases empty
    · rw [queued] at empty
      cases empty
  · rfl

theorem checkRemaining_served {abstracted : RecvTill.Connected} {head served : RecvTill.Request}
    {others : List RecvTill.Request} {finished : Bool} {rest : List Byte}
    (residual : abstracted.buf1 ≠ []) (queued : abstracted.queue = head :: others)
    (taken : RecvTill.remaining abstracted.buf1 head = some (finished, rest, served)) :
    abstracted.checkRemaining =
      if finished then
        some ({ abstracted with buf1 := rest, queue := others, standing := true }.complete served)
      else { abstracted with buf1 := rest, queue := served :: others }.stopReading := by
  unfold RecvTill.Connected.checkRemaining
  rw [queued]
  split
  · rename_i request more bytes later same
    obtain ⟨rfl, rfl⟩ := List.cons.inj same
    rw [taken]
    cases finished <;> rfl
  · rename_i other
    obtain ⟨first, more, held⟩ := List.exists_cons_of_ne_nil residual
    exact absurd rfl (other first more head others held)

theorem safe_checkRemaining (bounded : Bounded connection) :
    Safe connection.checkRemaining (Refined (abstract connection).checkRemaining) := by
  unfold Connected.checkRemaining
  split
  · rename_i empty
    rw [checkRemaining_idle (Or.inr (by simp [abstract, empty]))]
    exact safe_stopReading bounded
  · rename_i head others queued
    have sound : Sound head := bounded.queued (by simp [queued])
    split
    · rename_i nothing
      rw [checkRemaining_idle (Or.inl (bounded.empty_iff.mpr nothing))]
      exact safe_stopReading bounded
    · rename_i residual
      apply safe_bind (safe_remaining sound bounded.inside)
      intro outcome leaves
      have left := bounded.leave leaves
      have same : (abstract connection).queue = waiting head :: others.map waiting := by
        simp [abstract, queued]
      rw [checkRemaining_served (mt bounded.empty_iff.mp residual) same leaves.same]
      have later : ∀ waits ∈ connection.curAlloc.toList ++ others, Sound waits := by
        intro waits member
        apply bounded.pending waits
        rw [queued]
        rcases List.mem_append.mp member with allocated | other
        · exact List.mem_append_left _ allocated
        · exact List.mem_append_right _ (List.mem_cons_of_mem _ other)
      cases finished : outcome.finished with
      | true =>
          simp only [↓reduceIte]
          refine safe_pure ⟨⟨left.allocated, left.within, left.small, later⟩, ?_⟩
          have seen := abstract_queue (connection.leave outcome) others true
          rw [abstract_complete, seen, abstract_leave leaves]
      | false =>
          simp only [Bool.false_eq_true, ↓reduceIte]
          have onward : Bounded
              { connection.leave outcome with queue := outcome.request :: others } := by
            refine ⟨left.allocated, left.within, left.small, ?_⟩
            intro waits member
            rcases List.mem_append.mp member with allocated | other
            · exact later waits (List.mem_append_left _ allocated)
            · rcases List.mem_cons.mp other with rfl | other
              · exact leaves.sound finished
              · exact later waits (List.mem_append_right _ other)
          have seen := abstract_queue (connection.leave outcome) (outcome.request :: others)
            (connection.leave outcome).standing
          rw [abstract_leave leaves] at seen
          exact seen ▸ safe_stopReading onward

theorem safe_run (bounded : Bounded connection) (sound : Sound request) :
    Safe (connection.run request) (Refined ((abstract connection).run (waiting request))) := by
  have serves : ((abstract connection).buf1 ≠ [] ∧ (abstract connection).queue = []) ↔
      (connection.len1 ≠ 0 ∧ connection.queue = []) :=
    and_congr (not_congr bounded.empty_iff) List.map_eq_nil_iff
  unfold Connected.run RecvTill.Connected.run
  split
  · rename_i alone
    rw [if_pos (serves.mpr alone)]
    apply safe_bind (safe_remaining sound bounded.inside)
    intro outcome leaves
    have left := bounded.leave leaves
    have same : RecvTill.remaining (abstract connection).buf1 (waiting request) = _ := leaves.same
    rw [same]
    cases finished : outcome.finished with
    | true =>
        refine safe_pure ⟨⟨left.allocated, left.within, left.small, left.pending⟩, ?_⟩
        rw [abstract_complete, abstract_leave leaves]
        rfl
    | false =>
        have onward := safe_enqueue left (leaves.sound finished)
        rw [abstract_leave leaves] at onward
        exact onward
  · rename_i busy
    rw [if_neg (mt serves.mp busy)]
    exact safe_enqueue bounded sound

structure Grown (connection : Connected) (fallback : Nat) (next : Connected) : Prop where
  bounded : Bounded next
  used : next.len1 = connection.len1
  room : connection.len1 + fallback ≤ next.block.length
  same : abstract next = { abstract connection with
    allocated := (abstract connection).allocated ||
      decide (connection.size1 - connection.len1 < fallback)
    size1 := if connection.size1 - connection.len1 < fallback
      then connection.size1 + connection.len1 + fallback else connection.size1 }

theorem safe_grow {fallback : Nat} (bounded : Bounded connection)
    (manageable : fallback ≤ addressSpace)
    (short : connection.size1 - connection.len1 < fallback) :
    Safe (connection.grow fallback) (Grown connection fallback) := by
  have small := bounded.small
  have within := bounded.within
  have inside := bounded.inside
  unfold addressSpace at small manageable
  unfold Connected.grow
  apply safe_bind (safe_add (by omega))
  rintro more rfl
  apply safe_bind (safe_add (by omega))
  rintro size1 rfl
  unfold malloc
  split
  · rename_i fits
    rw [pure_bind]
    have room : 0 + connection.len1 ≤ (List.replicate
        (connection.size1 + (connection.len1 + fallback)) (0 : Byte)).length := by
      rw [List.length_replicate]
      omega
    apply safe_bind (safe_memcpy room (by omega))
    rintro fresh ⟨length, copied⟩
    rw [List.length_replicate] at length
    rw [Nat.zero_add, List.take_zero, List.nil_append, List.drop_zero] at copied
    refine safe_pure ⟨⟨length, ?_, fits, bounded.pending⟩, rfl, ?_, ?_⟩
    · dsimp only
      omega
    · show connection.len1 + fallback ≤ fresh.length
      omega
    · simp [abstract, Connected.block, copied, short, Nat.add_assoc]
  · exact safe_throw (by decide)

theorem safe_makeRoom {fallback : Nat} (bounded : Bounded connection)
    (manageable : fallback ≤ addressSpace) :
    Safe (connection.makeRoom fallback) (Grown connection fallback) := by
  unfold Connected.makeRoom
  apply safe_bind (safe_subtract bounded.within)
  rintro free rfl
  split
  · rename_i short
    exact safe_grow bounded manageable short
  · rename_i enough
    refine safe_pure ⟨bounded, rfl, ?_, ?_⟩
    · rw [bounded.allocated]
      have within := bounded.within
      omega
    · simp [enough, abstract]

theorem safe_giveBack (bounded : Bounded connection) (sound : Sound request) :
    Safe (connection.giveBack request) fun next =>
      Bounded next ∧ abstract next = { abstract connection with
        allocated := (abstract connection).allocated || (decide (request.cur ≠ 0) &&
          decide (connection.size1 - connection.len1 < request.cur))
        size1 := if request.cur ≠ 0 ∧ connection.size1 - connection.len1 < request.cur
          then connection.size1 + connection.len1 + request.cur else connection.size1
        buf1 := (abstract connection).buf1 ++ request.buf.take request.cur } := by
  have divides := sound.split
  unfold Connected.giveBack
  split
  · rename_i nothing
    refine safe_pure ⟨bounded, ?_⟩
    simp [nothing, abstract]
  · rename_i some_
    apply safe_bind (safe_makeRoom bounded (Nat.le_trans (by omega) sound.small))
    rintro grown ⟨kept, used, wide, same⟩
    rw [used]
    apply safe_bind (safe_memcpy wide (by omega))
    rintro block ⟨length, copied⟩
    refine safe_pure ⟨kept.setBlock length wide, ?_⟩
    rw [List.drop_zero] at copied
    have front : grown.block.take connection.len1 = (abstract connection).buf1 := by
      rw [← used]
      exact congrArg RecvTill.Connected.buf1 same
    rw [abstract_setBlock _ length, same, copied, front]
    simp [some_]

theorem erase_waiting {queue : List Request} {id : Nat}
    (found : queue.find? (·.id = id) = some request) :
    (queue.map waiting).erase (waiting request) = (queue.erase request).map waiting := by
  induction queue with
  | nil => cases found
  | cons head rest ih =>
      by_cases same : head.id = id
      · rw [List.find?_cons_of_pos (by simpa using same)] at found
        cases found
        rw [List.map_cons, List.erase_cons_head, List.erase_cons_head]
      · rw [List.find?_cons_of_neg (by simpa using same)] at found
        have own : request.id = id := by simpa using List.find?_some found
        have other : head ≠ request := fun equal => same (equal ▸ own)
        have apart : waiting head ≠ waiting request := fun equal =>
          same ((congrArg RecvTill.Request.id equal).trans own)
        rw [List.map_cons, List.erase_cons_tail (by simpa using apart),
          List.erase_cons_tail (by simpa using other), List.map_cons, ih found]

theorem safe_cancel {id : Nat} (bounded : Bounded connection)
    (found : connection.queue.find? (·.id = id) = some request) :
    Safe (connection.cancel request)
      (Refined ((abstract connection).cancel (waiting request))) := by
  have sound : Sound request := bounded.queued (List.mem_of_find?_eq_some found)
  have erased : Bounded { connection with queue := connection.queue.erase request } := by
    refine ⟨bounded.allocated, bounded.within, bounded.small, ?_⟩
    intro waits member
    apply bounded.pending waits
    rcases List.mem_append.mp member with allocated | other
    · exact List.mem_append_left _ allocated
    · exact List.mem_append_right _ (List.mem_of_mem_erase other)
  have divides := sound.split
  have held : (request.buf.take request.cur).length = request.cur :=
    List.length_take_of_le (by omega)
  unfold Connected.cancel
  apply safe_bind (safe_giveBack erased sound)
  rintro next ⟨kept, same⟩
  apply safe_bind safe_require
  intro _ handle
  refine safe_pure ⟨⟨kept.allocated, kept.within, kept.small, kept.pending⟩, ?_⟩
  have armed : (abstract connection).asyncCancel = true :=
    (congrArg RecvTill.Connected.asyncCancel same).symm.trans handle
  have seen : abstract { next with asyncPending := true } =
      { abstract next with asyncPending := true } := rfl
  rw [seen, same, RecvTill.Connected.cancel, if_pos armed]
  have fallback : (waiting request).data.length = request.cur := held
  have used : (abstract connection).len1 = connection.len1 := bounded.residual
  have room : sizeSub (abstract connection).size1 connection.len1 =
    connection.size1 - connection.len1 := bounded.free
  have erases : (abstract connection).queue.erase (waiting request) =
    (connection.queue.erase request).map waiting := erase_waiting found
  simp only [fallback, used, room, erases]
  rfl

/-- The window is inside the caller's buffer, or inside the free part of `buf1`. -/
def Fits (connection : Connected) (count : Nat) : Prop :=
  ∃ request, connection.curAlloc = some request ∧
    (request.pattern = none ∧ count ≤ request.left ∨
      request.pattern ≠ none ∧ connection.len1 + count ≤ connection.block.length)

structure Offered (connection : Connected) (after : Connected × Nat) : Prop where
  bounded : Bounded after.1
  fits : Fits after.1 after.2
  same : (abstract connection).tcpAllocCb1 = some (abstract after.1, after.2)

theorem safe_allocate (bounded : Bounded connection) :
    Safe connection.allocate fun next =>
      Bounded next ∧ next.curAlloc = connection.curAlloc ∧ next.len1 = connection.len1 ∧
        abstract next = { abstract connection with
          allocated := true
          size1 := if (abstract connection).allocated then connection.size1 else 1024 } := by
  unfold Connected.allocate
  split
  · rename_i block held
    refine safe_pure ⟨bounded, rfl, rfl, ?_⟩
    simp [abstract, held]
  · rename_i missing
    have nothing : connection.len1 = 0 := by
      have within := bounded.within
      have allocated := bounded.allocated
      have empty : connection.size1 = 0 := by
        rw [← allocated, Connected.block, missing]
        rfl
      omega
    have enough : 1024 ≤ addressSpace := by decide
    unfold malloc
    rw [if_pos enough, pure_bind]
    refine safe_pure ⟨⟨?_, ?_, enough, bounded.pending⟩, rfl, rfl, ?_⟩
    · exact List.length_replicate
    · exact Nat.le_trans (Nat.le_of_eq nothing) (Nat.zero_le _)
    · simp [abstract, missing, nothing, -List.reduceReplicate]

theorem safe_tcpAllocCb1 (bounded : Bounded connection) :
    Safe connection.tcpAllocCb1 (Offered connection) := by
  unfold Connected.tcpAllocCb1
  apply safe_bind safe_require
  intro _ idle
  split
  · exact safe_throw (by decide)
  · rename_i request others queued
    have taken : Bounded { connection with curAlloc := some request, queue := others } := by
      refine ⟨bounded.allocated, bounded.within, bounded.small, fun waits member => ?_⟩
      apply bounded.queued
      rw [queued]
      exact member
    dsimp only
    split
    · rename_i kind
      apply safe_bind safe_require
      intro _ nothing
      refine safe_pure ⟨taken, ?_, ?_⟩
      · exact ⟨request, rfl, Or.inl ⟨kind, Nat.mod_le _ _⟩⟩
      · simp [RecvTill.Connected.tcpAllocCb1, abstract, idle, queued, waiting, kind, nothing,
          Connected.block]
    · rename_i pattern kind
      apply safe_bind (safe_allocate taken)
      rintro next ⟨kept, current, used, same⟩
      apply safe_bind (safe_subtract kept.within)
      rintro free rfl
      refine safe_pure ⟨kept, ?_, ?_⟩
      · have window : uvBufLen (next.size1 - next.len1) ≤ next.size1 - next.len1 := Nat.mod_le _ _
        have within := kept.within
        refine ⟨request, current, Or.inr ⟨by simp [kind], ?_⟩⟩
        rw [kept.allocated]
        dsimp only
        omega
      · have small : next.size1 = if connection.buf1.isSome then connection.size1 else 1024 :=
          congrArg RecvTill.Connected.size1 same
        dsimp only
        rw [same, ← kept.free, small, used]
        simp only [RecvTill.Connected.tcpAllocCb1, RecvTill.Connected.len1, abstract, idle, queued,
          waiting, kind, List.map_cons, Option.map_none, Option.map_some, bounded.residual]
        rfl

theorem safe_filled {chunk : List Byte} (bounded : Bounded connection)
    (current : connection.curAlloc = some request) (kind : request.pattern = none)
    (fits : chunk.length ≤ request.left) :
    Safe (connection.arrive chunk >>= (·.tcpRecvCb1 chunk.length))
      (Refined ((abstract connection).tcpRecvCb1 chunk)) := by
  have sound : Sound request := bounded.pending request (by simp [current])
  have divides := sound.split
  have later : ∀ waits ∈ connection.queue, Sound waits := fun _ => bounded.queued
  have seen : (abstract connection).curAlloc = some (waiting request) := by
    simp [abstract, current]
  unfold Connected.arrive RecvTill.Connected.tcpRecvCb1
  rw [current, seen]
  dsimp only
  rw [kind]
  dsimp only
  rw [bind_assoc]
  apply safe_bind (safe_memcpy (by omega) (by omega))
  rintro buf ⟨length, copied⟩
  rw [List.drop_zero, List.take_length] at copied
  rw [pure_bind]
  unfold Connected.tcpRecvCb1
  dsimp only
  split
  · rename_i nothing
    have empty : chunk = [] := List.eq_nil_of_length_eq_zero nothing
    subst empty
    rw [List.length_nil, Nat.add_zero, List.append_nil] at copied
    refine safe_pure ⟨⟨bounded.allocated, bounded.within, bounded.small, ?_⟩, ?_⟩
    · intro waits member
      rcases List.mem_cons.mp member with rfl | other
      · exact sound.advance sound.waits length rfl rfl rfl kind.symm
      · exact later waits other
    · simp [abstract, waiting, copied, length, kind, Connected.block]
  · rename_i arrived
    have some_ : chunk ≠ [] := fun empty => arrived (by rw [empty]; rfl)
    rw [if_neg some_]
    apply safe_bind safe_require
    intro _ _
    split
    · rename_i full
      refine safe_pure ⟨⟨bounded.allocated, bounded.within, bounded.small, later⟩, ?_⟩
      have whole : request.cur + chunk.length = request.len := by
        rw [sound.whole]
        omega
      rw [whole] at copied
      simp [RecvTill.Connected.complete, Connected.complete, abstract, waiting, done, kind, full,
        copied, length, Connected.block]
    · rename_i partly
      apply safe_bind (safe_subtract fits)
      rintro left rfl
      have onward : Bounded { connection with
          curAlloc := none
          received := connection.received ++ chunk
          queue := { request with
            pattern := none, buf := buf, cur := request.cur + chunk.length
            left := request.left - chunk.length } :: connection.queue } := by
        refine ⟨bounded.allocated, bounded.within, bounded.small, ?_⟩
        intro waits member
        rcases List.mem_cons.mp member with rfl | other
        · exact sound.advance (Nat.lt_of_le_of_ne fits partly) length rfl rfl rfl kind.symm
        · exact later waits other
      apply safe_mono (safe_checkRemaining onward)
      intro next refined
      have short : ¬(waiting request).left < chunk.length := Nat.not_lt.mpr fits
      have partly' : ¬chunk.length = (waiting request).left := partly
      have fill : (waiting request).pattern = none := kind
      rw [fill]
      dsimp only
      rw [if_neg short, if_neg partly']
      simpa [abstract, waiting, copied, length, Connected.block] using refined

def searched (connection : RecvTill.Connected) (request : RecvTill.Request)
    (buf1 : List Byte) : Option RecvTill.Connected :=
  match RecvTill.remaining buf1 request with
  | some (true, rest, served) =>
      some ({ connection with buf1 := rest, standing := true }.complete served)
  | some (false, rest, waits) =>
      { connection with buf1 := rest, queue := waits :: connection.queue }.checkRemaining
  | none => none

theorem safe_searchRecv {pattern : List Byte} {nread : Nat} (bounded : Bounded connection)
    (current : connection.curAlloc = some request) (kind : request.pattern = some pattern)
    (fits : connection.len1 + nread ≤ connection.block.length) (positive : nread ≠ 0) :
    Safe (connection.tcpRecvCb1 nread)
      (Refined (searched { abstract connection with curAlloc := none } (waiting request)
        (connection.block.take (connection.len1 + nread)))) := by
  have sound : Sound request := bounded.pending request (by simp [current])
  have released : Bounded { connection with curAlloc := none } :=
    ⟨bounded.allocated, bounded.within, bounded.small, fun _ member => bounded.queued member⟩
  unfold Connected.tcpRecvCb1
  rw [current]
  dsimp only
  rw [if_neg positive, kind]
  dsimp only
  apply safe_bind (safe_subtract bounded.within)
  rintro free rfl
  apply safe_bind safe_require
  intro _ _
  apply safe_bind (safe_remaining sound fits)
  intro outcome leaves
  have left := released.leave leaves
  have seen : abstract (Connected.leave { connection with curAlloc := none } outcome) =
      { abstract connection with
        curAlloc := none, buf1 := outcome.block.take outcome.len1 } := abstract_leave leaves
  unfold searched
  rw [leaves.same]
  cases finished : outcome.finished with
  | true =>
      simp only [↓reduceIte]
      refine safe_pure ⟨⟨left.allocated, left.within, left.small, left.pending⟩, ?_⟩
      have ends := abstract_queue (Connected.leave { connection with curAlloc := none } outcome)
        connection.queue true
      rw [seen] at ends
      rw [abstract_complete]
      exact congrArg (fun after => some (after.complete (done outcome.request))) ends.symm
  | false =>
      simp only [Bool.false_eq_true, ↓reduceIte]
      have onward : Bounded { connection.leave outcome with
          curAlloc := none, queue := outcome.request :: connection.queue } := by
        refine ⟨left.allocated, left.within, left.small, ?_⟩
        intro waits member
        rcases List.mem_cons.mp member with rfl | other
        · exact leaves.sound finished
        · exact bounded.queued other
      have ends := abstract_queue (Connected.leave { connection with curAlloc := none } outcome)
        (outcome.request :: connection.queue) connection.standing
      rw [seen] at ends
      have continues := safe_checkRemaining onward
      exact ends ▸ continues

structure Arrived (connection : Connected) (chunk : List Byte) (after : Connected) : Prop where
  bounded : Bounded after
  current : after.curAlloc = connection.curAlloc
  used : after.len1 = connection.len1
  length : after.block.length = connection.block.length
  behind : after.block.take (connection.len1 + chunk.length) = (abstract connection).buf1 ++ chunk
  same : abstract after =
    { abstract connection with received := connection.received ++ chunk }

theorem safe_arrive {chunk pattern : List Byte} (bounded : Bounded connection)
    (current : connection.curAlloc = some request) (kind : request.pattern = some pattern)
    (fits : connection.len1 + chunk.length ≤ connection.block.length) :
    Safe (connection.arrive chunk) (Arrived connection chunk) := by
  unfold Connected.arrive
  rw [current]
  dsimp only
  rw [kind]
  apply safe_bind (safe_memcpy fits (by omega))
  rintro block ⟨length, copied⟩
  rw [List.drop_zero, List.take_length] at copied
  have held : (connection.setBlock block).block = block := block_setBlock length
  have kept := bounded.setBlock length bounded.inside
  have front : block.take connection.len1 = (abstract connection).buf1 := by
    have both := congrArg (List.take connection.len1) copied
    rw [List.take_take, Nat.min_eq_left (Nat.le_add_right _ _)] at both
    exact both.trans (List.take_left' bounded.residual)
  refine safe_pure ⟨⟨kept.allocated, kept.within, kept.small, kept.pending⟩, rfl, rfl, ?_, ?_, ?_⟩
  · exact (congrArg List.length held).trans length
  · exact (congrArg (List.take _) held).trans copied
  · have seen := abstract_setBlock connection.len1 length
    rw [front] at seen
    exact congrArg (fun after => { after with received := connection.received ++ chunk }) seen

theorem safe_searched {chunk pattern : List Byte} (bounded : Bounded connection)
    (current : connection.curAlloc = some request) (kind : request.pattern = some pattern)
    (fits : connection.len1 + chunk.length ≤ connection.block.length) :
    Safe (connection.arrive chunk >>= (·.tcpRecvCb1 chunk.length))
      (Refined ((abstract connection).tcpRecvCb1 chunk)) := by
  have seen : (abstract connection).curAlloc = some (waiting request) := by
    simp [abstract, current]
  have search : (waiting request).pattern = some pattern := kind
  apply safe_bind (safe_arrive bounded current kind fits)
  rintro after arrived
  have target : after.curAlloc = some request := arrived.current.trans current
  by_cases nothing : chunk = []
  · subst nothing
    have sound : Sound request := bounded.pending request (by simp [current])
    have stays : abstract { after with curAlloc := none, queue := request :: after.queue } =
        { abstract after with
          curAlloc := none, queue := waiting request :: (abstract after).queue } := rfl
    have bounds := arrived.bounded
    unfold Connected.tcpRecvCb1 RecvTill.Connected.tcpRecvCb1
    rw [target, seen]
    refine safe_pure ⟨⟨bounds.allocated, bounds.within, bounds.small, ?_⟩, ?_⟩
    · intro waits member
      rcases List.mem_cons.mp member with rfl | other
      · exact sound
      · exact bounds.queued other
    · rw [stays, arrived.same]
      rfl
  · have positive : chunk.length ≠ 0 := mt List.eq_nil_of_length_eq_zero nothing
    have roomy : after.len1 + chunk.length ≤ after.block.length := by
      rw [arrived.used, arrived.length]
      exact fits
    have enough : ¬sizeSub (abstract connection).size1 (abstract connection).len1 < chunk.length := by
      have used : (abstract connection).len1 = connection.len1 := bounded.residual
      have free : sizeSub (abstract connection).size1 connection.len1 = _ := bounded.free
      have allocated := bounded.allocated
      rw [used, free]
      omega
    have recv := safe_searchRecv arrived.bounded target kind roomy positive
    rw [arrived.used, arrived.behind, arrived.same] at recv
    unfold RecvTill.Connected.tcpRecvCb1
    rw [seen]
    dsimp only
    rw [if_neg nothing, search]
    dsimp only
    rw [if_neg enough]
    exact recv

theorem safe_received {chunk : List Byte} (bounded : Bounded connection)
    (fits : Fits connection chunk.length) :
    Safe (connection.arrive chunk >>= (·.tcpRecvCb1 chunk.length))
      (Refined ((abstract connection).tcpRecvCb1 chunk)) := by
  obtain ⟨request, current, ⟨kind, room⟩ | ⟨kind, room⟩⟩ := fits
  · exact safe_filled bounded current kind room
  · obtain ⟨pattern, named⟩ := Option.ne_none_iff_exists'.mp kind
    exact safe_searched bounded current named room

end Connection

theorem Fits.smaller {connection : Connected} {window count : Nat} (fits : Fits connection window)
    (shorter : count ≤ window) : Fits connection count := by
  obtain ⟨request, current, ⟨kind, room⟩ | ⟨kind, room⟩⟩ := fits
  · exact ⟨request, current, Or.inl ⟨kind, Nat.le_trans shorter room⟩⟩
  · exact ⟨request, current, Or.inr ⟨kind, by omega⟩⟩

theorem safe_new {id : Nat} {buf : List Byte} {pattern : Option (List Byte)} :
    Safe (Request.new id buf pattern) fun request =>
      Sound request ∧ RecvTill.Request.new id buf.length pattern = some (waiting request) := by
  unfold Request.new
  split
  · exact safe_throw (by decide)
  · rename_i manageable
    apply safe_bind safe_require
    rintro _ ⟨room, named⟩
    have positive := List.length_pos_iff.mpr room
    refine safe_pure ⟨⟨Nat.zero_add _, positive, rfl, Nat.le_of_not_lt manageable, named⟩, ?_⟩
    simp [RecvTill.Request.new, waiting, room, named]

theorem safe_read {connection : Connected} {chunk : List Byte} (bounded : Bounded connection) :
    Safe (perform connection (.read chunk))
      (Refined (RecvTill.step (abstract connection) (.read chunk))) := by
  unfold perform RecvTill.step
  dsimp only
  split
  · exact safe_throw (by decide)
  · rename_i reading
    have same : ¬((abstract connection).standing ∨ (abstract connection).receiving ≠ .recvTill) :=
      reading
    rw [if_neg same]
    apply safe_bind (safe_tcpAllocCb1 bounded)
    rintro ⟨allocated, window⟩ offered
    rw [offered.same]
    dsimp only
    split
    · exact safe_throw (by decide)
    · rename_i within
      have fits := offered.fits.smaller (Nat.le_of_not_lt fun longer => within (Or.inr longer))
      rw [Option.bind_some]
      dsimp only
      rw [if_neg within]
      exact safe_received offered.bounded fits

theorem safe_perform {connection : Connected} (bounded : Bounded connection) (label : Label) :
    Safe (perform connection label) (Refined (RecvTill.step (abstract connection) (event label))) := by
  cases label with
  | issue buf pattern =>
      apply safe_bind safe_new
      rintro request ⟨sound, made⟩
      have listed : Bounded { connection with issued := connection.issued ++ [request] } :=
        ⟨bounded.allocated, bounded.within, bounded.small, bounded.pending⟩
      have made' : RecvTill.Request.new (abstract connection).issued.length buf.length pattern =
          some (waiting request) := by
        rw [← made]
        simp [abstract]
      have seen : abstract { connection with issued := connection.issued ++ [request] } =
          { abstract connection with
            issued := (abstract connection).issued ++ [waiting request] } := by
        simp [abstract, Connected.block]
      have ran := safe_run listed sound
      rw [seen] at ran
      unfold event RecvTill.step
      dsimp only
      rw [made', Option.bind_some]
      exact ran
  | cancel id =>
      unfold perform RecvTill.step event
      dsimp only
      split
      · rename_i request found
        have same : (abstract connection).queue.find? (·.id = id) = some (waiting request) := by
          have mapped := List.find?_map (f := waiting) (p := fun other => decide (other.id = id))
            (l := connection.queue)
          exact mapped.trans (congrArg (Option.map waiting) found)
        rw [same, Option.bind_some]
        exact safe_cancel bounded found
      · exact safe_throw (by decide)
  | read chunk => exact safe_read bounded
  | fallback =>
      unfold perform RecvTill.step event
      dsimp only
      split
      · exact safe_throw (by decide)
      · rename_i pending
        have same : ¬((abstract connection).standing ∨ (abstract connection).asyncPending = false) :=
          pending
        rw [if_neg same]
        have released : Bounded { connection with asyncPending := false } :=
          ⟨bounded.allocated, bounded.within, bounded.small, bounded.pending⟩
        exact safe_checkRemaining released
  | back =>
      unfold perform RecvTill.step event
      dsimp only
      split
      · rename_i standing
        have same : (abstract connection).standing = true := standing
        rw [if_pos same]
        exact safe_checkRemaining bounded
      · exact safe_throw (by decide)

theorem safe_step {connection next : Connected} {label : Label} (bounded : Bounded connection)
    (taken : step connection label = some next) :
    Refined (RecvTill.step (abstract connection) (event label)) next := by
  unfold step at taken
  cases outcome : perform connection label with
  | ok after =>
      rw [outcome] at taken
      cases taken
      exact safe_ok (safe_perform bounded label) outcome
  | error stop =>
      rw [outcome] at taken
      cases taken

theorem bounded_new : Bounded {} where
  allocated := rfl
  within := Nat.le_refl 0
  small := Nat.zero_le addressSpace
  pending := fun _ member => absurd member List.not_mem_nil

theorem bounded_run {labels : List Label} {connection : Connected}
    (run : replay step {} labels = some connection) : Bounded connection :=
  replay_always Bounded (fun _ _ _ bounded taken => (safe_step bounded taken).1) bounded_new run

/-- Every run in memory is a run of `RecvTill` on the parts of the blocks that are in use. -/
theorem run_refines {labels : List Label} {start connection : Connected} (bounded : Bounded start)
    (run : replay step start labels = some connection) :
    replay RecvTill.step (abstract start) (labels.map event) = some (abstract connection) := by
  induction labels generalizing start with
  | nil =>
      cases run
      rfl
  | cons label rest ih =>
      obtain ⟨next, taken, tail⟩ := replay_cons run
      obtain ⟨kept, same⟩ := safe_step bounded taken
      rw [List.map_cons, replay, same, Option.bind_some]
      exact ih kept tail

/-- `buf1` is allocated to `size1` bytes with `len1` of them in use, and the cursor of every
pending request splits its buffer in front of at least one free byte. -/
def Consistent (connection : Connected) : Prop :=
  connection.len1 ≤ connection.size1 ∧ connection.block.length = connection.size1 ∧
    ∀ request ∈ connection.curAlloc.toList ++ connection.queue,
      request.cur + request.left = request.buf.length ∧ 0 < request.left

theorem Bounded.consistent {connection : Connected} (bounded : Bounded connection) :
    Consistent connection := by
  refine ⟨bounded.within, bounded.allocated, fun request member => ?_⟩
  have sound := bounded.pending request member
  exact ⟨sound.split, sound.waits⟩

/-- In every state of every run, and between the two callbacks of a read, the counters are
consistent; and whatever comes next, no copy leaves its blocks and no size wraps. -/
theorem copies_in_bounds (labels : List Label) (connection : Connected)
    (run : replay step {} labels = some connection) :
    Consistent connection ∧
      (∀ allocated window, connection.tcpAllocCb1 = .ok (allocated, window) →
        Consistent allocated) ∧
      ∀ label, perform connection label ≠ .error .fault := by
  have bounded := bounded_run run
  refine ⟨bounded.consistent, ?_, ?_⟩
  · intro allocated window offered
    exact (safe_ok (safe_tcpAllocCb1 bounded) offered).bounded.consistent
  · intro label
    exact safe_not_fault (safe_perform bounded label)

/-- A fill request gives two bytes back, for which `buf1` has to grow, and a pattern request
finds its pattern in them. -/
def givenBack : List Label :=
  [.issue [0, 0, 0, 0] none, .read [7, 13], .cancel 0, .issue [0, 0, 0] (some [13])]

theorem copies_in_bounds_givenBack : ∃ connection, replay step {} givenBack = some connection ∧
    connection.completed.length = 1 ∧ Consistent connection := by
  have running : (replay step {} givenBack).isSome := by decide
  refine ⟨_, (Option.some_get running).symm, by decide +revert, ?_⟩
  exact (copies_in_bounds givenBack _ (Option.some_get running).symm).1

end Cocoflow.BufferSafety
