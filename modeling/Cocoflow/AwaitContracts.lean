import Mathlib.Data.List.Basic
import Mathlib.Logic.Function.Basic
import Cocoflow.PooledScheduler

/-!
What `await` promises about the books of the scheduler. A call that returns -1 spares every
task that is in use if and only if its target is not in use itself: the inline `await` gives
the id of the target away before `__await` looks at its status. And a call whose target ends
leaves nothing behind if and only if the target does not end by an exception of a type of the
user, for which `__await` has no handler.
-/

namespace Cocoflow.AwaitContracts

open LabelledRuns Scheduler SchedulerNest SchedulerLocal SchedulerSteps SchedulerRuns
open SchedulerFrame SchedulerContracts SchedulerIds PooledScheduler
open TaskPool (ClassPool giveBack)

/-- A call of `await` in `p` that has returned -1 in `p'` leaves the tasks that run, and the
ids that belong to them, alone. -/
structure Spared (p p' : Pooled) : Prop where
  returned : p'.sched.exec = p.sched.exec ∧ p'.sched.contexts = p.sched.contexts ∧
    p'.sched.current = p.sched.current
  status : ∀ t, (p'.sched.tasks t).status = (p.sched.tasks t).status
  uid : ∀ t, p.sched.live t = true → (p.sched.tasks t).status = .running →
    (p'.sched.tasks t).uid = (p.sched.tasks t).uid
  links : ∀ t, p.sched.live t = true → (p.sched.tasks t).status = .running →
    (p'.sched.tasks t).blockTo = (p.sched.tasks t).blockTo ∧
      (p'.sched.tasks t).finishTo = (p.sched.tasks t).finishTo ∧
      (p'.sched.tasks t).reuse = (p.sched.tasks t).reuse
  owned : ∀ t id, p.sched.live t = true → (p.sched.tasks t).status = .running →
    (p.sched.tasks t).uid = some id → ∀ cls pool, p'.classes cls = some pool → id ∉ pool.free
  bounded : ∀ cls pool, p'.classes cls = some pool → 0 ≤ pool.front

section Refused

variable {p : Pooled} {s : State} {k target : Nat} {mode : Mode} {rest : Nest} {context : Context}
  {moves : List Move}

theorem live_below (inv : Invariant s ((k, mode) :: rest)) (live : mode.Live) {l : Nat}
    {other : Context} (there : s.contexts l = some other) :
    modeOf ((k, mode) :: rest) l ≠ .cancelling := by
  obtain ⟨head, found⟩ := head_found inv.nested
  -- the coroutine above a cancelling one is cancelling too, and younger
  induction age : s.clock - other.stamp using Nat.strongRecOn generalizing l other with
  | _ age ih =>
      intro unwound
      by_cases same : l = k
      · rw [same, modeOf_head] at unwound
        obtain ⟨token, rfl⟩ := live
        cases unwound
      · rcases other_point inv found same there with ⟨waits, below⟩ | ⟨-, parked⟩
        · have placed := (inv.sound l other there).placed
          rw [unwound] at placed
          obtain ⟨j, -, link⟩ := link_above inv.nested below
          obtain ⟨upper, lower, upperFound, lowerFound, younger, above⟩ := link
          rw [there] at lowerFound
          cases lowerFound
          cases point : other.point <;> simp only [point, switched] at waits
          case inStart => simp [Placed, point, Mode.Live] at placed
          case started => simp [Placed, point, Mode.Live] at placed
          case canceling =>
            rw [point] at above
            have earlier := (inv.sound j upper upperFound).stamp
            exact ih (s.clock - upper.stamp) (by omega) upperFound rfl above.1
        · rw [parked] at unwound
          cases unwound

theorem base_running (inv : Invariant s ((k, mode) :: rest)) (found : s.contexts k = some context)
    (point : context.point = .user) {l : Nat} {other : Context}
    (there : s.contexts l = some other) : (s.tasks other.base).status = .running := by
  have placed := placed_of inv found
  simp only [Placed, point] at placed
  have sound := inv.sound l other there
  have statuses := sound.statuses
  rw [Statuses, if_neg (live_below inv placed.1 there)] at statuses
  rcases statuses other.base (base_mem other) with running | unready | flagged
  · exact running
  · have returning := unready.2.2.1
    by_cases same : l = k
    · subst same
      rw [found] at there
      cases there
      rw [point] at returning
      cases returning
    · rcases other_point inv found same there with ⟨waits, -⟩ | ⟨⟨at_, yields⟩, -⟩
      · simp [returning, switched] at waits
      · rw [returning] at yields
        cases yields
  · obtain ⟨inside, outer, split, more, -⟩ := flagged.outside
    exact absurd rfl (outer_not_base sound.nodup split more)

def refuses (p : Pooled) (target : Nat) : Pooled :=
  { p with
    sched := p.sched.setTask target fun task => { task with uid := none }
    classes := giveBack p.classes (object p target) }

theorem step_refuses (acc : Accounted p) (exec : p.sched.exec = some k)
    (found : p.sched.contexts k = some context) (point : context.point = .user)
    (live : p.sched.live target = true)
    (started : (p.sched.tasks target).status ≠ .ready ∧ (p.sched.tasks target).status ≠ .limited) :
    PooledScheduler.step p (.act (.await target)) = some (refuses p target) := by
  obtain ⟨nest, inv⟩ := acc.nested
  have user : (p.sched.tasks context.inner).kind = .user := by
    have placed := (inv.sound k context found).placed
    simp only [Placed, point] at placed
    exact placed.2
  obtain ⟨parent, -, current⟩ := inv.current k context exec found
  have refused : Scheduler.step p.sched (.await target) =
      some (p.sched.setTask target fun task => { task with uid := none }) := by
    simp [Scheduler.step, exec, found, contextStep, point, user, userStep, Scheduler.await, live,
      current, started]
  simp only [PooledScheduler.step, refused, Option.map_some, handedBack]
  rfl

theorem running_engaged {nest : Nest} (inv : Invariant s nest) {t : Nat} (live : s.live t = true)
    (runs : (s.tasks t).status = .running) : Engaged s t := by
  obtain ⟨j, other, there, member⟩ := inv.running t live runs
  exact engaged_place there member ((inv.sound j other there).owned t member).2

theorem refused_spares (acc : Accounted p) (acc' : Accounted (refuses p target))
    (free : ¬Engaged p.sched target) : Spared p (refuses p target) := by
  obtain ⟨nest, inv⟩ := acc.nested
  have apart : ∀ t, p.sched.live t = true → (p.sched.tasks t).status = .running →
      t ≠ target := by
    rintro t live runs rfl
    exact free (running_engaged inv live runs)
  have kept : ∀ t, t ≠ target → (refuses p target).sched.tasks t = p.sched.tasks t := by
    intro t different
    simp only [refuses]
    exact setTask_other _ _ _ different
  refine ⟨⟨rfl, rfl, rfl⟩, fun t => ?_, fun t live runs => ?_, fun t live runs => ?_,
    fun t id live runs carried cls pool known => ?_, fun cls pool known => ?_⟩
  · by_cases here : t = target
    · subst here
      simp [refuses]
    · rw [kept t here]
  · rw [kept t (apart t live runs)]
  · rw [kept t (apart t live runs)]
    exact ⟨rfl, rfl, rfl⟩
  · have same := kept t (apart t live runs)
    exact carried_taken acc' live (by rw [same, carried]) known
  · exact (TaskPool.books_exact acc'.pools known).2.2.2.2.2.1

/-- A refused call puts the id of the coroutine on which its target is on a free list. -/
theorem refused_spoils (acc : Accounted p) (exec : p.sched.exec = some k)
    (found : p.sched.contexts k = some context) (point : context.point = .user)
    (engaged : Engaged p.sched target) : ¬Spared p (refuses p target) := by
  intro spared
  obtain ⟨nest, inv⟩ := acc.nested
  obtain ⟨other, there, member⟩ := engaged
  cases carried : (p.sched.tasks target).uid with
  | none =>
      rw [carried] at there
      cases there
  | some j =>
      rw [carried] at there
      have sound := inv.sound j other there
      obtain ⟨alive, own⟩ := sound.owned _ (base_mem other)
      have live := (sound.owned target member).1
      cases nest with
      | nil =>
          have away : p.sched.exec = none := inv.exec
          rw [exec] at away
          cases away
      | cons entry rest =>
          obtain ⟨top, mode⟩ := entry
          have head : p.sched.exec = some top := inv.exec
          rw [exec] at head
          cases head
          have runs := base_running inv found point there
          obtain ⟨pool, known⟩ := Option.isSome_iff_exists.mp
            (acc.pools.registered target (object p target) (live_view live))
          have front := (acc.pools.exact _ pool known).1
          have pushed : (refuses p target).classes (p.cls target) = some (pool.push j) := by
            change giveBack p.classes (object p target) (p.cls target) = _
            unfold giveBack
            have carries : (object p target).uniqueId = some j := carried
            rw [carries]
            change Function.update p.classes (p.cls target) _ (p.cls target) = _
            rw [Function.update_self]
            change Option.map _ (p.classes (p.cls target)) = _
            have same : p.classes (p.cls target) = some pool := known
            rw [same]
            rfl
          refine spared.owned other.base j alive runs own _ _ pushed ?_
          rw [ClassPool.free_push pool j front]
          exact List.mem_cons_self

/-- In every state of every regular run, a call of `await` for a task that is neither ready
nor limited returns -1, and it spares the tasks in use exactly if its target is none of them:
if the `run()` of the target has ended. -/
theorem await_refused_iff {p : Pooled} {moves : List Move}
    (along : Along PooledScheduler.step Regular {} moves)
    (run : replay PooledScheduler.step {} moves = some p)
    {k target : Nat} {context : Context} (exec : p.sched.exec = some k)
    (found : p.sched.contexts k = some context) (point : context.point = .user)
    (live : p.sched.live target = true)
    (started : (p.sched.tasks target).status ≠ .ready ∧
      (p.sched.tasks target).status ≠ .limited) :
    ∃ p', PooledScheduler.step p (.act (.await target)) = some p' ∧
      (Spared p p' ↔ ¬Engaged p.sched target) := by
  have acc := accounted_along along run
  have taken := step_refuses acc exec found point live started
  refine ⟨refuses p target, taken, ?_⟩
  constructor
  · intro spared engaged
    exact refused_spoils acc exec found point engaged spared
  · intro free
    have regular : Regular p (.act (.await target)) := by
      refine ⟨⟨free, fun unstarted => ?_⟩, fun unstarted => ?_, trivial⟩
      · exact absurd unstarted (not_or.mpr started)
      · exact absurd unstarted (not_or.mpr started)
    exact refused_spares acc (step_accounted acc regular taken) free

/-- The top task awaits `all_of(task)`; the task has ended without blocking and holds its id. -/
def endedChild : List Move :=
  [.init 0 4, .construct .user 0, .construct .event 0, .construct (.group .allOf [1]) 0,
    .act (.cocoflow 0), .act .tau, .act (.await 2), .act .tau, .act .tau, .act .skip, .act .tau,
    .act .tau, .act .tau, .act .tau, .act .tau, .act .tau]

theorem await_refused_ended : ∃ p p', replay PooledScheduler.step {} endedChild = some p ∧
    PooledScheduler.step p (.act (.await 1)) = some p' ∧ (p.sched.tasks 1).uid = some 1 ∧
      Spared p p' := by
  have reached : (replay PooledScheduler.step {} endedChild).isSome := by decide +kernel
  have regular : Along PooledScheduler.step Regular {} endedChild := by decide +kernel
  have free : ¬Engaged ((replay PooledScheduler.step {} endedChild).get reached).sched 1 := by
    decide +kernel +revert
  have holds : (((replay PooledScheduler.step {} endedChild).get reached).sched.tasks 1).uid =
      some 1 := by decide +kernel +revert
  have exec : ((replay PooledScheduler.step {} endedChild).get reached).sched.exec = some 0 := by
    decide +kernel +revert
  have found : ((replay PooledScheduler.step {} endedChild).get reached).sched.contexts 0 =
      some ⟨0, [], .user, 0⟩ := by decide +kernel +revert
  have live : ((replay PooledScheduler.step {} endedChild).get reached).sched.live 1 = true := by
    decide +kernel +revert
  obtain ⟨p', taken, spared⟩ := await_refused_iff regular (Option.some_get reached).symm exec
    found rfl live (by decide +kernel +revert)
  exact ⟨_, p', (Option.some_get reached).symm, taken, holds, spared.mpr free⟩

def sleeping : List Move :=
  [.init 0 4, .construct .user 0, .construct .event 0, .act (.cocoflow 0), .act .tau,
    .act (.start 1), .act .block, .act .tau]

theorem await_refused_spoils : ¬∀ moves p target p', replay PooledScheduler.step {} moves = some p →
    p.sched.live target = true → (p.sched.tasks target).status ≠ .ready →
    (p.sched.tasks target).status ≠ .limited →
    PooledScheduler.step p (.act (.await target)) = some p' → Spared p p' := by
  intro claimed
  have reached : (replay PooledScheduler.step {} sleeping).isSome := by decide +kernel
  have refused : (PooledScheduler.step ((replay PooledScheduler.step {} sleeping).get reached)
      (.act (.await 1))).isSome := by decide +kernel +revert
  have pool : (((PooledScheduler.step ((replay PooledScheduler.step {} sleeping).get reached)
      (.act (.await 1))).get refused).classes 0).isSome := by decide +kernel +revert
  have free : 1 ∈ ((((PooledScheduler.step ((replay PooledScheduler.step {} sleeping).get reached)
      (.act (.await 1))).get refused).classes 0).get pool).free := by decide +kernel +revert
  have carried : (((replay PooledScheduler.step {} sleeping).get reached).sched.tasks 1).uid =
      some 1 := by decide +kernel +revert
  have runs : (((replay PooledScheduler.step {} sleeping).get reached).sched.tasks 1).status =
      .running := by decide +kernel +revert
  have live : ((replay PooledScheduler.step {} sleeping).get reached).sched.live 1 = true := by
    decide +kernel +revert
  have spared := claimed sleeping _ 1 _ (Option.some_get reached).symm live
    (by rw [runs]; simp) (by rw [runs]; simp) (Option.some_get refused).symm
  exact spared.owned 1 1 live runs carried 0 _ (Option.some_get pool).symm free

end Refused

structure LeftClean (p : Pooled) (frame : Frame) : Prop where
  current : p.sched.current = some frame.parent
  reuse : (p.sched.tasks frame.parent).reuse = none
  uid : (p.sched.tasks frame.target).uid = none
  destroyed : ∀ p', PooledScheduler.step p (.act (.destroy frame.target)) = some p' →
    p'.classes = p.classes

section Exits

variable {p p' : Pooled} {s s' : State} {k : Nat} {context : Context} {frame : Frame}
  {outer : List Frame} {moves : List Move} {move : Move}

theorem step_destroy {t : Nat} (taken : Scheduler.step s (.destroy t) = some s') :
    s' = { s with live := Function.update s.live t false } := by
  have object : objectStep s (.destroy t) = some s' := by
    unfold Scheduler.step at taken
    cases exec : s.exec with
    | none =>
        rw [exec] at taken
        simp only [loopStep] at taken
        split at taken
        · exact taken
        · cases taken
    | some k =>
        rw [exec] at taken
        dsimp only at taken
        cases found : s.contexts k with
        | none =>
            rw [found] at taken
            cases taken
        | some context =>
            rw [found] at taken
            unfold contextStep at taken
            cases point : context.point <;> cases kind : (s.tasks context.inner).kind <;>
              simp [point, kind, userStep] at taken <;> exact taken
  simp only [objectStep] at object
  split at object
  · cases object
    rfl
  · cases object

theorem destroy_blank {t : Nat} (blank : (p.sched.tasks t).uid = none)
    (taken : PooledScheduler.step p (.act (.destroy t)) = some p') : p'.classes = p.classes := by
  obtain ⟨s', moved, rfl⟩ := Option.map_eq_some_iff.mp taken
  have gone := step_destroy moved
  change handedBack p (.destroy t) s' = p.classes
  unfold handedBack
  cases found : deleted p.sched s' with
  | none => rfl
  | some other =>
      have lost := List.find?_some found
      have here : other = t := by
        by_contra apart
        simp [gone, Function.update_of_ne apart] at lost
      subst here
      have carries : (object p other).uniqueId = none := blank
      simp only [giveBack, carries]

theorem regular_exit (acc : Accounted p) (exec : p.sched.exec = some k)
    (found : p.sched.contexts k = some context) (awaits : context.awaits = frame :: outer)
    (own : move ≠ .userThrow) (taken : PooledScheduler.step p move = some p') {after : Context}
    (there : p'.sched.contexts k = some after) (left : after.awaits = outer) :
    Left p.sched p'.sched k context frame outer := by
  obtain ⟨nest, inv⟩ := acc.nested
  -- a step that keeps the calls of the coroutine does not leave one
  have stays : ∀ still, p'.sched.contexts k = some still → still.awaits = context.awaits → False := by
    intro still same kept
    rw [there] at same
    cases same
    rw [left, awaits] at kept
    simpa using congrArg List.length kept
  cases move with
  | init cls maxTaskNum =>
      simp only [PooledScheduler.step] at taken
      split at taken
      · cases taken
      · cases taken
        exact (stays context found rfl).elim
  | construct kind cls =>
      simp only [PooledScheduler.step] at taken
      split at taken
      · rename_i constructed
        obtain ⟨rfl, -⟩ := step_construct constructed
        split at taken
        · cases taken
          exact (stays context found rfl).elim
        · cases taken
          exact (stays context found rfl).elim
      · cases taken
  | userThrow => exact absurd rfl own
  | act label =>
      obtain ⟨objects, s', moved, rfl⟩ := step_act taken
      cases step_changes inv objects moved with
      | same _ _ same =>
          obtain ⟨still, place, -, kept⟩ := same.chains k context found
          exact (stays still place kept).elim
      | left _ _ l other frame' outer' exec' found' ended =>
          rw [exec] at exec'
          cases exec'
          rw [found] at found'
          cases found'
          have same := ended.awaits
          rw [awaits] at same
          cases same
          exact ended
      | finished _ _ l other exec' found' ended =>
          rw [exec] at exec'
          cases exec'
          rw [found] at found'
          cases found'
          have alone := finished_alone inv found ended
          rw [awaits] at alone
          cases alone
      | lent l other target exec' found' _ _ accepted =>
          rw [exec] at exec'
          cases exec'
          rw [found] at found'
          cases found'
          obtain ⟨still, place, chain⟩ := accepted.stack
          rw [there] at place
          cases place
          -- a new call makes the stack longer
          have length := congrArg List.length chain
          simp [Context.chain, awaits, left] at length
      | refused target _ _ given =>
          rw [given] at there
          exact (stays context (by rw [given]; exact found) rfl).elim
      | destroyed _ t _ _ gone => exact (stays context (by rw [gone]; exact found) rfl).elim

theorem throwOut_keeps (thrown : throwOut s = some s') :
    ∀ t, (s'.tasks t).uid = (s.tasks t).uid := by
  unfold throwOut at thrown
  intro t
  split at thrown
  · cases thrown
  · split at thrown
    · cases thrown
    · split at thrown
      · cases thrown
        rfl
      · cases thrown

/-- In every regular run, at any nesting depth: a step that ends a call of `__await` leaves it
clean exactly if it is no exception of a type of the user. -/
theorem await_left_clean_iff (along : Along PooledScheduler.step Regular {} moves)
    (run : replay PooledScheduler.step {} moves = some p) (exec : p.sched.exec = some k)
    (found : p.sched.contexts k = some context) (awaits : context.awaits = frame :: outer)
    (taken : PooledScheduler.step p move = some p') {after : Context}
    (there : p'.sched.contexts k = some after) (left : after.awaits = outer) :
    LeftClean p' frame ↔ move ≠ .userThrow := by
  have acc := accounted_along along run
  constructor
  · rintro clean rfl
    obtain ⟨nest, inv⟩ := acc.nested
    obtain ⟨s', thrown, rfl⟩ := Option.map_eq_some_iff.mp taken
    have member : frame.target ∈ context.chain :=
      List.mem_append_left _ (by simp [awaits])
    have lent := ((inv.sound k context found).owned _ member).2
    have blank := clean.uid
    rw [throwOut_keeps thrown, lent] at blank
    cases blank
  · intro own
    have ended := regular_exit acc exec found awaits own taken there left
    have blank : (p'.sched.tasks frame.target).uid = none := by
      rw [ended.uid, if_pos rfl]
    exact ⟨ended.current, ended.reuse, blank, fun _ destroyed => destroy_blank blank destroyed⟩

def nestedAwait : List Move :=
  [.init 0 4, .init 1 2, .construct .user 0, .construct .user 1, .construct .user 1,
    .act (.cocoflow 0), .act .tau, .act (.await 1), .act .tau, .act (.await 2), .act .tau]

theorem await_left_clean_returned : ∃ p p',
    replay PooledScheduler.step {} (nestedAwait ++ [.act .ret]) = some p ∧
    PooledScheduler.step p (.act .tau) = some p' ∧ LeftClean p' ⟨1, 2⟩ := by
  have reached : (replay PooledScheduler.step {} (nestedAwait ++ [.act .ret])).isSome := by
    decide +kernel
  have regular : Along PooledScheduler.step Regular {} (nestedAwait ++ [.act .ret]) := by
    decide +kernel
  have moved : (PooledScheduler.step ((replay PooledScheduler.step {}
      (nestedAwait ++ [.act .ret])).get reached) (.act .tau)).isSome := by decide +kernel +revert
  have exec : ((replay PooledScheduler.step {}
      (nestedAwait ++ [.act .ret])).get reached).sched.exec = some 0 := by decide +kernel +revert
  have found : ((replay PooledScheduler.step {}
      (nestedAwait ++ [.act .ret])).get reached).sched.contexts 0 =
        some ⟨0, [⟨1, 2⟩, ⟨0, 1⟩], .returning, 0⟩ := by decide +kernel +revert
  have there : ((PooledScheduler.step ((replay PooledScheduler.step {}
      (nestedAwait ++ [.act .ret])).get reached) (.act .tau)).get moved).sched.contexts 0 =
        some ⟨0, [⟨0, 1⟩], .user, 0⟩ := by decide +kernel +revert
  exact ⟨_, _, (Option.some_get reached).symm, (Option.some_get moved).symm,
    (await_left_clean_iff regular (Option.some_get reached).symm exec found rfl
      (Option.some_get moved).symm there rfl).mpr (by simp)⟩

/-- The inner task throws, the task that awaits it catches the exception, and the inner task is
destroyed. The id of the coroutine on which all this happens then stands on a free list, in
front of its first place. -/
theorem await_left_unclean : ¬∀ moves p move p' k context frame outer after,
    replay PooledScheduler.step {} moves = some p → p.sched.exec = some k →
    p.sched.contexts k = some context → context.awaits = frame :: outer →
    PooledScheduler.step p move = some p' → p'.sched.contexts k = some after →
    after.awaits = outer → LeftClean p' frame := by
  intro claimed
  have reached : (replay PooledScheduler.step {} nestedAwait).isSome := by decide +kernel
  have thrown : (PooledScheduler.step ((replay PooledScheduler.step {} nestedAwait).get reached)
      .userThrow).isSome := by decide +kernel +revert
  have gone : (PooledScheduler.step ((PooledScheduler.step
      ((replay PooledScheduler.step {} nestedAwait).get reached) .userThrow).get thrown)
      (.act (.destroy 2))).isSome := by decide +kernel +revert
  have exec : ((replay PooledScheduler.step {} nestedAwait).get reached).sched.exec = some 0 := by
    decide +kernel +revert
  have found : ((replay PooledScheduler.step {} nestedAwait).get reached).sched.contexts 0 =
      some ⟨0, [⟨1, 2⟩, ⟨0, 1⟩], .user, 0⟩ := by decide +kernel +revert
  have there : ((PooledScheduler.step ((replay PooledScheduler.step {} nestedAwait).get reached)
      .userThrow).get thrown).sched.contexts 0 = some ⟨0, [⟨0, 1⟩], .user, 0⟩ := by
    decide +kernel +revert
  have before : (((PooledScheduler.step ((replay PooledScheduler.step {} nestedAwait).get reached)
      .userThrow).get thrown).classes 1).map ClassPool.free = some [5, 4] := by
    decide +kernel +revert
  have after : (((PooledScheduler.step ((PooledScheduler.step
      ((replay PooledScheduler.step {} nestedAwait).get reached) .userThrow).get thrown)
      (.act (.destroy 2))).get gone).classes 1).map ClassPool.free = some [0, 5, 4] := by
    decide +kernel +revert
  have clean := claimed nestedAwait _ .userThrow _ 0 _ ⟨1, 2⟩ [⟨0, 1⟩] _
    (Option.some_get reached).symm exec found rfl (Option.some_get thrown).symm there rfl
  have same := clean.destroyed _ (Option.some_get gone).symm
  rw [same, before] at after
  simp at after

end Exits

end Cocoflow.AwaitContracts
