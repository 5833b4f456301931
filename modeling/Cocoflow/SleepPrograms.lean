import Mathlib.Logic.Relation
import Cocoflow.LabelledRuns
import Cocoflow.PrimitiveTasks
import Cocoflow.PrimitiveLinks
import Cocoflow.SleepTimers
import Cocoflow.PrimitivePrograms

/-!
Programs that sleep (src/sleep.cc on top of src/cocoflow.cc). Whatever combinators they use, a
coroutine that waits for sleeps only waits for a timer that the loop holds, and the loop can go on
until the first timer is due and wake the coroutine that waits for it.
-/

namespace Cocoflow.SleepPrograms

open LabelledRuns SchedulerNest SchedulerLocal SchedulerWaits SchedulerStages PrimitiveLinks
open SleepTimers PrimitivePrograms
open PrimitiveTasks hiding step

/-- The coroutine waits in a `sleep` for the timer. -/
structure Sleeping (program : Program Sleep Loop) (l : Nat) (timer : Timer) : Prop where
  held : timer ∈ program.world.memory.extra.timerHandles
  parked : ∃ context entry, program.sched.contexts l = some context ∧
    context.point = .yielded .event ∧ program.world.tasks context.inner = some entry ∧
      entry.object.timer = some timer.place ∧ timer.delay = entry.object.timeout ∧
        program.world.memory.requests timer.place = some { data := some context.inner }

def Elsewhere (program : Program Sleep Loop) (l : Nat) : Prop :=
  ∃ context, program.sched.contexts l = some context ∧ context.point = .yielded .event ∧
    program.own context.inner = false

section Waking

variable {program after : Program Sleep Loop} {t : Nat} {entry : Entry Sleep} {timer : Timer}

theorem sleeper_parked (coupled : Coupled sleep program) (armed : Armed program.world)
    (loop : program.sched.exec = none) (known : program.world.tasks t = some entry)
    (still : entry.yielded = true) : ∃ l timer context, Sleeping program l timer ∧
      program.sched.contexts l = some context ∧ context.inner = t ∧
        entry.object.timer = some timer.place := by
  obtain ⟨nest, inv⟩ := coupled.nested
  obtain ⟨event, l, context, found, rfl, -⟩ :=
    inv.armed t ((yielded_armed coupled known).mp still)
  obtain ⟨timer, member, asks, delay⟩ := armed.sleepers _ entry known still
  obtain ⟨-, -, -, place, own, names⟩ := coupled.linked.waits _ entry known still
  cases asks.symm.trans own
  exact ⟨l, timer, context, ⟨member, context, entry, found,
    event_parked inv found (by simp [loop]) event, known, asks, delay, names⟩, found, rfl, asks⟩

theorem time_passes (reached : Reached sleep (fun _ => false) {} program)
    (loop : program.sched.exec = none) {time : Nat}
    (forward : program.world.memory.extra.time ≤ time) (bound : time < 2 ^ 64) :
    ∃ later, step sleep program (.extra time) = some later ∧ later.sched = program.sched ∧
      later.world.tasks = program.world.tasks ∧
      later.world.memory.requests = program.world.memory.requests ∧
      later.world.memory.extra = { program.world.memory.extra with time := time } := by
  have passes : program.world.memory.extra.updateTime time =
      some { program.world.memory.extra with time := time } := if_pos ⟨forward, bound⟩
  have acted : PrimitiveTasks.step sleep program.world (.act time) =
      some { program.world with memory := { program.world.memory with
        extra := { program.world.memory.extra with time := time } } } := by
    simp only [PrimitiveTasks.step, sleep, passes, Option.map_some]
  refine ⟨{ sched := program.sched, world := { program.world with memory :=
    { program.world.memory with extra := { program.world.memory.extra with time := time } } } },
    ?_, rfl, rfl, rfl, rfl⟩
  simp only [step, Program.turns, replay, Option.bind_some, Program.calls,
    replay_append, acted, landed_nowhere (reached.agrees.landed loop), Option.map_some]

theorem due_wakes (reached : Reached sleep (fun _ => false) {} program)
    (loop : program.sched.exec = none) {p : Nat} (sleeping : Sleeping program p timer)
    (least : ∀ other ∈ program.world.memory.extra.timerHandles, ¬Before other timer)
    (due : timer.deadline ≤ program.world.memory.extra.time) :
    ∃ after, step sleep program (.callback timer.place ()) = some after ∧
      after.sched.exec = some p := by
  have coupled := coupled_of sleep_lawful reached
  obtain ⟨calls, -, served⟩ := reached.served
  obtain ⟨-, armed, -⟩ := sleeps_armed served
  obtain ⟨context, entry, found, -, -, -, -, names⟩ := sleeping.parked
  obtain ⟨memory, stands, called⟩ := call_enabled armed sleeping.held due least
  obtain ⟨after, wakes⟩ : ∃ after, step sleep program (.callback timer.place ()) = some after :=
    callback_goes sleep_lawful sleep_obliging coupled loop (by rw [called]; simp)
  refine ⟨after, wakes, ?_⟩
  obtain ⟨labels, turns, scheduled, -⟩ := step_cases wakes
  have owner : stands.map Prod.fst = some context.inner := by
    obtain ⟨request, other, owner, object, there, -, data, -, rfl, -⟩ := sleepCb_cases called
    rw [names] at there
    cases there
    exact data.symm
  have resumes : labels = [.event context.inner] := by
    simp only [Program.turns, loop, if_true, called, Option.map_some, Option.some.injEq] at turns
    rw [← turns]
    cases stands with
    | none => cases owner
    | some stood =>
        have same : stood.1 = context.inner := Option.some.inj owner
        simp [same]
  subst resumes
  obtain ⟨next, taken, last⟩ := replay_cons scheduled
  cases last
  obtain ⟨nest, inv⟩ := coupled.nested
  exact event_resumes inv found loop taken

/-- The first timer wakes the coroutine that waits for it as soon as it is due. -/
theorem first_wakes (reached : Reached sleep (fun _ => false) {} program)
    (loop : program.sched.exec = none) (held : timer ∈ program.world.memory.extra.timerHandles) :
    ∃ p first, Sleeping program p first ∧
      (∀ other ∈ program.world.memory.extra.timerHandles, ¬Before other first) ∧
      first.deadline < 2 ^ 64 ∧ ∀ time, program.world.memory.extra.time ≤ time →
        first.deadline ≤ time → time < 2 ^ 64 → ∃ after,
          replay (step sleep) program [.extra time, .callback first.place ()] = some after ∧
            after.sched.exec = some p := by
  have coupled := coupled_of sleep_lawful reached
  obtain ⟨calls, -, served⟩ := reached.served
  obtain ⟨-, armed, timed⟩ := sleeps_armed served
  obtain ⟨first, member, least⟩ := exists_first (List.ne_nil_of_mem held)
  obtain ⟨t, -, entry, known, still, own⟩ := armed.timers first member
  obtain ⟨p, timer', -, sleeping, -, -, asks⟩ := sleeper_parked coupled armed loop known still
  have same : timer' = first := by
    -- two timers that run are in two places
    have places : timer'.place = first.place := Option.some.inj (asks.symm.trans own)
    exact List.inj_on_of_nodup_map armed.alone sleeping.held member places
  subst same
  refine ⟨p, timer', sleeping, least, timed.bounded _ member, fun time forward due bound => ?_⟩
  obtain ⟨later, passes, sched, tasks, requests, clock⟩ := time_passes reached loop forward bound
  have onward := reached_step sleep_lawful reached (show Proper _ program (.extra time) from trivial)
    passes
  -- the clock leaves the sleeper, its coroutine and its timer as they were
  have slept : Sleeping later p timer' := by
    refine ⟨by rw [clock]; exact member, ?_⟩
    rw [sched, tasks, requests]
    exact sleeping.parked
  obtain ⟨after, wakes, resumed⟩ := due_wakes onward (by rw [sched]; exact loop) slept
    (by rw [clock]; exact least) (by rw [clock]; exact due)
  exact ⟨after, by simp [replay, passes, wakes], resumed⟩

/-- In every run, whenever control is in the event loop. -/
theorem sleepers_woken {moves : List (Move Nat Nat Unit Nat)}
    (along : Along (step sleep) (Proper fun _ => false) (start {}) moves)
    (run : replay (step sleep) (start {}) moves = some program)
    (loop : program.sched.exec = none) {k : Nat} (used : program.sched.contexts k ≠ none) :
    ∃ l, Relation.ReflTransGen (WaitsFor program.sched) k l ∧
      (Barren program.sched l ∨ Elsewhere program l ∨ (∃ timer, Sleeping program l timer) ∧
        ∃ p first, Sleeping program p first ∧
          (∀ other ∈ program.world.memory.extra.timerHandles, ¬Before other first) ∧
          first.deadline < 2 ^ 64 ∧ ∀ time, program.world.memory.extra.time ≤ time →
            first.deadline ≤ time → time < 2 ^ 64 → ∃ after,
              replay (step sleep) program [.extra time, .callback first.place ()] = some after ∧
                after.sched.exec = some p) := by
  have reached := reached_along sleep_lawful along run
  have coupled := coupled_of sleep_lawful reached
  obtain ⟨calls, -, served⟩ := reached.served
  obtain ⟨-, armed, -⟩ := sleeps_armed served
  obtain ⟨nest, inv⟩ := coupled.nested
  obtain rfl := SchedulerProgress.loop_nest inv loop
  obtain ⟨context, found⟩ := Option.ne_none_iff_exists'.mp used
  -- who waits for others waits in the end for a primitive, or for a child that ended child_unready
  obtain ⟨l, chain, ends⟩ := waits_chain inv coupled.attended found
  refine ⟨l, chain, ?_⟩
  rcases ends with ⟨parked, there, point, pending, -⟩ | barren
  · cases own : program.own parked.inner with
    | false => exact Or.inr (Or.inl ⟨parked, there, point, own⟩)
    | true =>
        obtain ⟨entry, known⟩ := Option.isSome_iff_exists.mp own
        obtain ⟨q, timer, other, sleeping, found', inner, -⟩ := sleeper_parked coupled armed loop
          known ((yielded_armed coupled known).mpr pending)
        have same : q = l := by
          refine engaged_once inv found' there (inner_mem other) ?_
          rw [inner]
          exact inner_mem parked
        subst same
        exact Or.inr (Or.inr ⟨⟨timer, sleeping⟩, first_wakes reached loop sleeping.held⟩)
  · exact Or.inl barren

/-- In `any_of(sleep(20), sleep(30))`, before any time has passed. -/
theorem sleepers_woken_race : ∃ program,
    replay (step sleep) (start {}) (raceOfSleeps.take 16) = some program ∧
      ∃ l, Relation.ReflTransGen (WaitsFor program.sched) 0 l ∧
        (Barren program.sched l ∨ Elsewhere program l ∨ (∃ timer, Sleeping program l timer) ∧
          ∃ p first, Sleeping program p first ∧
            (∀ other ∈ program.world.memory.extra.timerHandles, ¬Before other first) ∧
            first.deadline < 2 ^ 64 ∧ ∀ time, program.world.memory.extra.time ≤ time →
              first.deadline ≤ time → time < 2 ^ 64 → ∃ after,
                replay (step sleep) program [.extra time, .callback first.place ()] =
                  some after ∧ after.sched.exec = some p) := by
  have reached : (replay (step sleep) (start {}) (raceOfSleeps.take 16)).isSome := by
    decide +kernel
  have proper : Along (step sleep) (Proper fun _ => false) (start {}) (raceOfSleeps.take 16) := by
    decide +kernel
  have loop : ((replay (step sleep) (start {}) (raceOfSleeps.take 16)).get
      reached).sched.exec = none := by decide +kernel +revert
  have used : (((replay (step sleep) (start {}) (raceOfSleeps.take 16)).get
      reached).sched.contexts 0).isSome := by decide +kernel +revert
  have run := (Option.some_get reached).symm
  exact ⟨_, run, sleepers_woken proper run loop (Option.isSome_iff_ne_none.mp used)⟩

end Waking

end Cocoflow.SleepPrograms
