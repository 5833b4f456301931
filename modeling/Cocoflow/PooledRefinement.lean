import Mathlib.Data.List.Basic
import Mathlib.Logic.Function.Basic
import Cocoflow.LabelledRuns
import Cocoflow.PoolIndependence

/-!
The scheduler with its pools, seen from above. A program makes moves: it sets up the pools of
its classes, constructs tasks, which take an id if their class has one left, and acts. Every
such run is a run of the scheduler in which the constructors name the ids that the pools have
handed out, and a run of the scheduler without ids.
-/

namespace Cocoflow.PooledRefinement

open LabelledRuns Scheduler SchedulerNest ThreadScheduler ThreadErasure ThreadRefinement
open PooledScheduler (Pooled Move Accounted)
open PoolIndependence (onlyAwaited sized)

def nextId (p : Pooled) (cls : Nat) : Option Nat :=
  ((p.classes cls).bind TaskPool.ClassPool.pop).map Prod.fst

def scheduled (p : Pooled) : Move → List Label
  | .construct kind cls => [.construct kind (nextId p cls)]
  | .act label => [label]
  | .init _ _ | .userThrow => []

def threaded (_ : Pooled) : Move → List Label
  | .construct kind _ => [.construct kind none]
  | .act label => [label]
  | .init _ _ | .userThrow => []

section Schedules

variable {p p' : Pooled} {move : Move} {moves : List Move}

theorem construct_scheduled (acc : Accounted p) {kind : Kind} {cls : Nat}
    (taken : PooledScheduler.step p (.construct kind cls) = some p') :
    Scheduler.step p.sched (.construct kind (nextId p cls)) = some p'.sched := by
  unfold PooledScheduler.step at taken
  dsimp only at taken
  split at taken
  · rename_i pool built known moved
    unfold nextId
    rw [known, Option.bind_some]
    split at taken
    · rename_i id rest popped
      rw [popped, Option.map_some]
      cases taken
      have free : pool.free = id :: rest.free :=
        TaskPool.ClassPool.free_pop pool rest id (acc.pools.exact cls pool known).1 popped
      refine (PooledScheduler.step_construct moved).2 id fun t _ live carried => ?_
      exact PooledScheduler.carried_taken acc live carried known (by simp [free])
    · rename_i empty
      rw [empty, Option.map_none]
      cases taken
      exact moved
  · cases taken

/-- The step lemma: a regular move with pools is a regular part of a run of the scheduler. -/
theorem move_scheduled (acc : Accounted p) (regular : PooledScheduler.Regular p move)
    (taken : PooledScheduler.step p move = some p') :
    replay Scheduler.step p.sched (scheduled p move) = some p'.sched ∧
      Along Scheduler.step SchedulerRuns.Regular p.sched (scheduled p move) ∧
        Accounted p' := by
  have after := PooledScheduler.step_accounted acc regular taken
  cases move with
  | init cls number =>
      simp only [PooledScheduler.step] at taken
      split at taken
      · cases taken
      · cases taken
        exact ⟨rfl, trivial, after⟩
  | construct kind cls =>
      refine ⟨?_, ⟨⟨trivial, trivial, trivial⟩, ?_⟩, after⟩
      · simp only [scheduled, replay, construct_scheduled acc taken, Option.bind_some]
      · simp [construct_scheduled acc taken, Along]
  | act label =>
      obtain ⟨-, s', moved, rfl⟩ := PooledScheduler.step_act taken
      refine ⟨?_, ⟨regular, ?_⟩, after⟩
      · simp only [scheduled, replay, moved, Option.bind_some]
      · simp [moved, Along]
  | userThrow => exact regular.elim

/-- The run lemma: every regular run with pools is a regular run of the scheduler. -/
theorem pooled_scheduled
    (along : Along PooledScheduler.step PooledScheduler.Regular {} moves)
    (run : replay PooledScheduler.step {} moves = some p) :
    replay Scheduler.step {} (observed PooledScheduler.step scheduled {} moves) = some p.sched ∧
      Along Scheduler.step SchedulerRuns.Regular {}
        (observed PooledScheduler.step scheduled {} moves) := by
  have simulated : ∃ s,
      replay Scheduler.step {} (observed PooledScheduler.step scheduled {} moves) = some s ∧
        Along Scheduler.step SchedulerRuns.Regular {}
          (observed PooledScheduler.step scheduled {} moves) ∧ Accounted p ∧ s = p.sched := by
    refine replay_simulates_along scheduled SchedulerRuns.Regular
      (fun q s => Accounted q ∧ s = q.sched) ?_
      ⟨PooledScheduler.initial_accounted, rfl⟩ along run
    rintro q move next s ⟨acc, rfl⟩ promised taken
    obtain ⟨moves, allowed, after⟩ := move_scheduled acc promised taken
    exact ⟨next.sched, moves, allowed, after, rfl⟩
  obtain ⟨s, ends, regular, -, rfl⟩ := simulated
  exact ⟨ends, regular⟩

/-- The pool of two ids is empty when the third sleep is constructed, and the program waits
for that sleep. -/
theorem pooled_scheduled_two : ∃ p,
    replay PooledScheduler.step {} (onlyAwaited.map (sized fun _ => 2)) = some p ∧
      replay Scheduler.step {} (observed PooledScheduler.step scheduled {}
        (onlyAwaited.map (sized fun _ => 2))) = some p.sched ∧
      Along Scheduler.step SchedulerRuns.Regular {} (observed PooledScheduler.step scheduled {}
        (onlyAwaited.map (sized fun _ => 2))) := by
  have reached : (replay PooledScheduler.step {}
      (onlyAwaited.map (sized fun _ => 2))).isSome := by decide +kernel
  have regular : Along PooledScheduler.step PooledScheduler.Regular {}
      (onlyAwaited.map (sized fun _ => 2)) := by decide +kernel
  have run := (Option.some_get reached).symm
  exact ⟨_, run, pooled_scheduled regular run⟩

end Schedules

section Threads

variable {p p' : Pooled} {kind : Kind} {cls : Nat} {label : Label} {moves : List Move}

theorem construct_threaded (acc : Accounted p)
    (taken : PooledScheduler.step p (.construct kind cls) = some p') :
    (erase p.sched).step (.construct kind none) = some (erase p'.sched) := by
  obtain ⟨nest, inv⟩ := acc.nested
  cases known : p.classes cls with
  | none => simp [PooledScheduler.step, known] at taken
  | some pool =>
      cases moved : Scheduler.step p.sched (.construct kind none) with
      | none => simp [PooledScheduler.step, known, moved] at taken
      | some built =>
          obtain ⟨next, steps, same, -⟩ := PoolIndependence.constructed inv known moved
          rw [taken] at steps
          cases steps
          have refined := PoolIndependence.construct_step_refines inv kind
          rw [moved, Option.map_some] at refined
          rw [← refined, same]

theorem act_threaded (acc : Accounted p) (regular : PooledScheduler.Regular p (.act label))
    (fed : PoolIndependence.Fed p (.act label)) (objects : ∀ kind uid, label ≠ .construct kind uid) :
    (PooledScheduler.step p (.act label)).map (fun next => erase next.sched) =
      (erase p.sched).step label := by
  obtain ⟨nest, inv⟩ := acc.nested
  have plain : Plain label := fun kind id => objects kind (some id)
  rw [← step_refines inv regular fed plain, PoolIndependence.step_label objects, Option.map_map]
  rfl

/-- The step lemma: a regular move in which the started task has an id is one without ids. -/
theorem move_threaded {move : Move} (acc : Accounted p) (regular : PooledScheduler.Regular p move)
    (fed : PoolIndependence.Fed p move) (taken : PooledScheduler.step p move = some p') :
    replay Machine.step (erase p.sched) (threaded p move) = some (erase p'.sched) ∧
      Along Machine.step (fun _ _ => True) (erase p.sched) (threaded p move) ∧
        Accounted p' := by
  have after := PooledScheduler.step_accounted acc regular taken
  cases move with
  | init cls number =>
      simp only [PooledScheduler.step] at taken
      split at taken
      · cases taken
      · cases taken
        exact ⟨rfl, trivial, after⟩
  | construct kind cls =>
      have moved := construct_threaded acc taken
      refine ⟨?_, ⟨trivial, ?_⟩, after⟩
      · simp only [threaded, replay, moved, Option.bind_some]
      · simp [moved, Along]
  | act label =>
      obtain ⟨objects, -⟩ := PooledScheduler.step_act taken
      have moved := act_threaded acc regular fed objects
      rw [taken, Option.map_some] at moved
      refine ⟨?_, ⟨trivial, ?_⟩, after⟩
      · simp only [threaded, replay, ← moved, Option.bind_some]
      · simp [← moved, Along]
  | userThrow => exact regular.elim

/-- In every regular run in which each task that is started finds an id, the scheduler with its
pools does what the scheduler without ids does, and can act whenever that one can. -/
theorem pooled_refines
    (along : Along PooledScheduler.step (fun q move => PooledScheduler.Regular q move ∧
      PoolIndependence.Fed q move) {} moves)
    (run : replay PooledScheduler.step {} moves = some p) :
    replay Machine.step (erase {}) (observed PooledScheduler.step threaded {} moves) =
        some (erase p.sched) ∧
      ∀ label, PooledScheduler.Regular p (.act label) → PoolIndependence.Fed p (.act label) →
        (∀ kind uid, label ≠ .construct kind uid) →
        (PooledScheduler.step p (.act label)).map (fun next => erase next.sched) =
          (erase p.sched).step label := by
  have simulated : ∃ m,
      replay Machine.step (erase {}) (observed PooledScheduler.step threaded {} moves) = some m ∧
        Along Machine.step (fun _ _ => True) (erase {})
          (observed PooledScheduler.step threaded {} moves) ∧ Accounted p ∧ m = erase p.sched := by
    refine replay_simulates_along threaded (fun _ _ => True)
      (fun q m => Accounted q ∧ m = erase q.sched) ?_
      ⟨PooledScheduler.initial_accounted, rfl⟩ along run
    rintro q move next m ⟨acc, rfl⟩ ⟨regular, fed⟩ taken
    obtain ⟨moves, allowed, after⟩ := move_threaded acc regular fed taken
    exact ⟨erase next.sched, moves, allowed, after, rfl⟩
  obtain ⟨m, ends, -, acc, rfl⟩ := simulated
  exact ⟨ends, fun label regular fed objects => act_threaded acc regular fed objects⟩

/-- Without ids the same run has its task awaited and its last task started, all the same. -/
theorem pooled_refines_two : ∃ p,
    replay PooledScheduler.step {} (onlyAwaited.map (sized fun _ => 2)) = some p ∧
      replay Machine.step (erase {}) (observed PooledScheduler.step threaded {}
        (onlyAwaited.map (sized fun _ => 2))) = some (erase p.sched) := by
  have reached : (replay PooledScheduler.step {}
      (onlyAwaited.map (sized fun _ => 2))).isSome := by decide +kernel
  have along : Along PooledScheduler.step (fun q move => PooledScheduler.Regular q move ∧
      PoolIndependence.Fed q move) {} (onlyAwaited.map (sized fun _ => 2)) := by decide +kernel
  have run := (Option.some_get reached).symm
  exact ⟨_, run, (pooled_refines along run).1⟩

end Threads

end Cocoflow.PooledRefinement
