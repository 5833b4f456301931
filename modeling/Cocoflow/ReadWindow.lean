import Mathlib.Data.List.Basic
import Cocoflow.LabelledRuns
import Cocoflow.TcpConnection
import Cocoflow.RecvTill
import Cocoflow.DeferredCleanup
import Cocoflow.OneShotReceive
import Cocoflow.PatternCompletion

/-!
The window that `tcp_alloc_cb1` offers to a pattern request. In the event loop a waiting pattern
request leaves less in `buf1` than its pattern is long, so there is room when `buf1` can hold
the pattern. It is allocated without regard to patterns and never grown for one.
-/

namespace Cocoflow.ReadWindow

open LabelledRuns TcpConnection RecvTill DeferredCleanup OneShotReceive PatternCompletion

def room (connection : Connected) : Nat :=
  if connection.allocated then connection.size1 else 1024

/-- In the event loop the residual is shorter than the pattern that it is searched for. -/
def Narrow (connection : Connected) : Prop :=
  Readable connection → connection.asyncPending = false →
    ∀ request others pattern, connection.queue = request :: others →
      request.pattern = some pattern → connection.buf1.length < pattern.length

theorem remains_narrow {buf1 rest pattern : List Byte} {request waiting : Request}
    (remains : Remains buf1 request false rest waiting) (kind : request.pattern = some pattern)
    (proper : pattern ≠ []) : rest.length < pattern.length := by
  have positive := List.length_pos_iff.mpr proper
  cases remains with
  | drained fill short => rw [fill] at kind; cases kind
  | unread own same short =>
      obtain rfl : own = pattern := Option.some.inj (same.symm.trans kind)
      exact short
  | moved own same long miss room =>
      obtain rfl : own = pattern := Option.some.inj (same.symm.trans kind)
      rw [List.length_drop]
      omega

section Steps

variable {connection next : Connected} {request : Request}

theorem proper_head {others : List Request} {pattern : List Byte} (pending : Pending connection)
    (queued : connection.queue = request :: others) (kind : request.pattern = some pattern) :
    pattern ≠ [] := by
  rintro rfl
  exact (pending.searching request (by simp [queued])).pattern kind

theorem narrow_checkRemaining (pending : Pending connection)
    (taken : connection.checkRemaining = some next) : Narrow next := by
  rcases checkRemaining_cases taken with
    ⟨request, others, rest, served, queued, -, remains, rfl⟩ |
    ⟨request, others, rest, waiting, queued, -, remains, rfl⟩ |
    ⟨-, -, rfl⟩ | ⟨empty, -, rfl⟩
  · intro readable
    cases readable.1
  · intro _ _ head later pattern same kind
    obtain ⟨rfl, rfl⟩ := List.cons.inj same
    rw [remains.pattern] at kind
    exact remains_narrow remains kind (proper_head pending queued kind)
  · intro readable
    cases readable.2
  · intro _ _ head later pattern same kind
    dsimp only
    rw [empty]
    exact List.length_pos_iff.mpr (proper_head pending same kind)

theorem narrow_enqueue (taken : connection.enqueue request = some next)
    (first : connection.receiving = .ready → connection.queue = [] ∧
      ∀ pattern, request.pattern = some pattern → connection.buf1.length < pattern.length)
    (served : Readable connection → connection.asyncPending = false → connection.queue ≠ [])
    (narrow : Narrow connection) : Narrow next := by
  rcases enqueue_cases taken with ⟨mode, rfl⟩ | ⟨mode, rfl⟩
  · obtain ⟨empty, short⟩ := first mode
    intro _ _ head others pattern same kind
    dsimp only at same
    rw [empty, List.nil_append] at same
    obtain ⟨rfl, -⟩ := List.cons.inj same
    exact short pattern kind
  · intro readable idle head others pattern same kind
    obtain ⟨front, behind, split⟩ := List.exists_cons_of_ne_nil (served readable idle)
    dsimp only at same
    rw [split, List.cons_append] at same
    obtain ⟨rfl, -⟩ := List.cons.inj same
    exact narrow readable idle front behind pattern split kind

theorem narrow_issue {capacity : Nat} {pattern : Option (List Byte)}
    (settled : Settled connection) (narrow : Narrow connection)
    (taken : step connection (.issue capacity pattern) = some next) : Narrow next := by
  obtain ⟨request, made, ran⟩ := issue_cases taken
  have proper := (new_searching made connection.buf1).1.pattern
  have empty_of_ready : connection.receiving = .ready → connection.queue = [] := by
    intro ready
    rcases settled.mode with ⟨-, empty, -, -⟩ | reading
    · exact empty
    · rw [ready] at reading
      cases reading
  have served : Readable connection → connection.asyncPending = false →
      connection.queue ≠ [] := by
    intro readable idle
    obtain ⟨-, head, others, split, -⟩ := settled.served readable idle
    simp [split]
  rcases run_cases ran with
    ⟨rest, done, alone, remains, rfl⟩ | ⟨rest, waiting, alone, remains, waits⟩ | ⟨busy, waits⟩
  · intro readable idle
    exact absurd alone (served readable idle)
  · refine narrow_enqueue waits (fun _ => ⟨alone, fun bytes kind => ?_⟩) served
      fun readable idle => absurd alone (served readable idle)
    rw [remains.pattern] at kind
    exact remains_narrow remains kind fun none => proper (none ▸ kind)
  · refine narrow_enqueue waits (fun ready => ⟨empty_of_ready ready, fun bytes kind => ?_⟩)
      served narrow
    rcases busy with empty | nonempty
    · rw [empty]
      exact List.length_pos_iff.mpr fun none => proper (none ▸ kind)
    · exact absurd (empty_of_ready ready) nonempty

theorem narrow_read {chunk : List Byte} (pending : Pending connection) (narrow : Narrow connection)
    (taken : step connection (.read chunk) = some next) : Narrow next := by
  obtain ⟨-, -, -, request, others, size1, allocated, queued, outcome⟩ := read_cases taken
  have searching := pending.searching request (by simp [queued])
  rcases outcome with ⟨-, -, rfl⟩ | ⟨-, -, -, rfl⟩ | ⟨kind, -, partly, continues⟩ |
    ⟨rest, done, -, -, rfl⟩ | ⟨rest, waiting, remains, -, continues⟩
  · exact narrow
  · intro readable
    cases readable.1
  · obtain ⟨behind, later⟩ := pending_head pending queued (searching_partly searching kind partly)
    exact narrow_checkRemaining ⟨behind, later⟩ continues
  · intro readable
    cases readable.1
  · have own := waiting_searching (searching_append chunk searching) remains
    obtain ⟨behind, later⟩ := pending_head pending queued own
    exact narrow_checkRemaining ⟨behind, later⟩ continues

end Steps

structure Bounded (connection : Connected) : Prop where
  settled : Settled connection
  pending : Pending connection
  narrow : Narrow connection

theorem bounded_step (connection : Connected) (label : Label) (next : Connected)
    (bounded : Bounded connection) (taken : step connection label = some next) :
    Bounded next := by
  obtain ⟨settled, pending, narrow⟩ := bounded
  refine ⟨settled_step connection label next settled taken,
    pending_step connection label next pending taken, ?_⟩
  cases label with
  | issue capacity pattern => exact narrow_issue settled narrow taken
  | cancel id =>
      obtain ⟨request, size1, allocated, found, -, rfl⟩ := cancel_cases taken
      intro _ idle
      cases idle
  | read chunk => exact narrow_read pending narrow taken
  | fallback =>
      obtain ⟨asyncPending, continues⟩ := resume_cases (Or.inl rfl) taken
      refine narrow_checkRemaining ?_ continues
      exact ⟨pending.behind, pending.searching⟩
  | back =>
      obtain ⟨asyncPending, continues⟩ := resume_cases (Or.inr rfl) taken
      refine narrow_checkRemaining ?_ continues
      exact ⟨pending.behind, pending.searching⟩

theorem bounded_new : Bounded {} :=
  ⟨settled_new, pending_new, fun readable => by cases readable.2⟩

/-- In every run, a read for a pattern that `buf1` can hold has a window, unless it overtakes
the clean-up behind a cancellation. -/
theorem window_nonempty (labels : List Label) (connection : Connected)
    (run : replay step {} labels = some connection) (readable : Readable connection)
    (clean : CleanedUp connection) (request : Request) (others : List Request)
    (queued : connection.queue = request :: others) (pattern : List Byte)
    (kind : request.pattern = some pattern) (fits : pattern.length ≤ room connection)
    (narrow : room connection < 2 ^ 32) :
    ∃ allocated window, connection.tcpAllocCb1 = some (allocated, window) ∧ 0 < window := by
  have bounded := replay_always Bounded bounded_step bounded_new run
  have short : connection.buf1.length < pattern.length := by
    cases pending : connection.asyncPending with
    | false => exact bounded.narrow readable pending request others pattern queued kind
    | true =>
        rw [(clean pending).2]
        exact List.length_pos_iff.mpr (proper_head bounded.pending queued kind)
  have window : 0 < uvBufLen (sizeSub (room connection) connection.len1) := by
    have less : connection.len1 < room connection := Nat.lt_of_lt_of_le short fits
    simp only [uvBufLen, sizeSub]
    omega
  unfold Connected.tcpAllocCb1
  rw [bounded.settled.free, queued]
  dsimp only
  rw [kind]
  exact ⟨_, _, rfl, window⟩

theorem window_nonempty_line : ∃ allocated window,
    (awaiting 8).tcpAllocCb1 = some (allocated, window) ∧ 0 < window :=
  window_nonempty [.issue 8 (some [13, 10])] (awaiting 8) (by decide) ⟨rfl, rfl⟩
    (fun pending => by cases pending) _ [] rfl [13, 10] rfl (by decide) (by decide)

/-- A cancelled request leaves a `buf1` of two bytes, and both are in use when the next one
looks for a pattern of three. -/
def smallResidual : List Label :=
  [.issue 4 none, .read [1, 2], .cancel 0, .issue 8 (some [1, 2, 3]), .fallback]

theorem window_empty : ¬∀ (labels : List Label) (connection : Connected),
    replay step {} labels = some connection → Readable connection →
    ∀ request others pattern, connection.queue = request :: others →
      request.pattern = some pattern →
      ∃ allocated window, connection.tcpAllocCb1 = some (allocated, window) ∧ 0 < window := by
  intro claimed
  have running : (replay step {} smallResidual).isSome := by decide
  have queued : ((replay step {} smallResidual).get running).queue =
      [⟨1, 8, some [1, 2, 3], [], 8, 8⟩] := by decide +revert
  have full : (((replay step {} smallResidual).get running).tcpAllocCb1).map Prod.snd =
      some 0 := by decide +revert
  obtain ⟨allocated, window, offered, positive⟩ := claimed _ _ (Option.some_get running).symm
    (by unfold Readable; decide +revert) _ _ _ queued rfl
  rw [offered, Option.map_some, Option.some.injEq] at full
  omega

end Cocoflow.ReadWindow
