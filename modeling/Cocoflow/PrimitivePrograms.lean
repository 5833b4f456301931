import Mathlib.Data.List.Nodup
import Mathlib.Logic.Function.Basic
import Cocoflow.LabelledRuns
import Cocoflow.SchedulerStages
import Cocoflow.PrimitiveTasks
import Cocoflow.PrimitiveLinks
import Cocoflow.SleepTimers

/-!
Programs whose tasks block in one primitive. The scheduler decides when `run`, `cancel()` and the
destructor of a task are called and which task a callback may stand on; the primitive decides what
these functions do to its objects and to the memory of libuv. A move is a step of the scheduler, of
libuv or of the primitive, with all that it makes the others do.
-/

namespace Cocoflow.PrimitivePrograms

open LabelledRuns SchedulerNest SchedulerRuns SchedulerFrame SchedulerStages PrimitiveTasks
open PrimitiveLinks
open Scheduler (State)

structure Program (Object Extra : Type) where
  sched : State := {}
  world : World Object Extra

/-- `act` is a step of the scheduler, `make` and `run` are the constructor and `run` of a task of
the primitive. The others come from libuv. -/
inductive Move (Parameters Input Outcome Action : Type) where
  | act (label : Scheduler.Label)
  | make (parameters : Parameters) (uid : Option Nat)
  | run (input : Input)
  | callback (request : Nat) (outcome : Outcome)
  | closed (request : Nat)
  | extra (action : Action)

section Machine

variable {Object Parameters Input Outcome Action Extra : Type}
  (primitive : Primitive Object Parameters Input Outcome Action Extra)

namespace Program

def own (program : Program Object Extra) (t : Nat) : Bool := (program.world.tasks t).isSome

/-- Whether a task of the primitive blocks, and when its callback comes, the primitive decides. -/
def foreign (program : Program Object Extra) : Scheduler.Label → Bool
  | .block | .skip => (running program.sched).all fun context => !program.own context.inner
  | .event t => !program.own t
  | _ => true

def unwound (program : Program Object Extra) (next : State) :
    List (Label Parameters Input Outcome Action) :=
  match running program.sched with
  | none => []
  | some context =>
      if program.own context.inner ∧ program.sched.armed context.inner ∧
          ¬next.armed context.inner then
        [.cancel context.inner (context.point ≠ .throwing)]
      else []

def destroyed (program : Program Object Extra) (next : State) : List Nat :=
  (List.range next.next).filter fun t => program.own t ∧ ¬next.live t

/-- Control is back in the event loop, which had called a callback. -/
def landed (program : Program Object Extra) (next : State) :
    List (Label Parameters Input Outcome Action) :=
  if program.world.calling ≠ none ∧ next.exec = none then [.callbackEnd] else []

def turns (program : Program Object Extra) :
    Move Parameters Input Outcome Action → Option (List Scheduler.Label)
  | .act label => if program.foreign label then some [label] else none
  | .make _ uid => some [.construct .event uid]
  | .run input =>
      (running program.sched).bind fun context =>
        (program.world.run primitive context.inner input).map fun world =>
          [if (world.tasks context.inner).any Entry.yielded then .block else .skip]
  | .callback request outcome =>
      if program.sched.exec = none then
        (primitive.callback request outcome program.world.objects program.world.memory).map
          fun (_, stands) => (stands.map fun (task, _) => Scheduler.Label.event task).toList
      else none
  | .closed _ => if program.sched.exec = none then some [] else none
  | .extra _ => some []

def calls (program : Program Object Extra) (next : State) :
    Move Parameters Input Outcome Action → List (Label Parameters Input Outcome Action)
  | .act _ => program.unwound next ++ (program.destroyed next).map .destroy
  | .make parameters _ => [.make program.sched.next parameters]
  | .run input => (running program.sched).toList.map fun context => .run context.inner input
  | .callback request outcome => [.callback request outcome]
  | .closed request => [.closed request]
  | .extra action => [.act action]

end Program

def step (program : Program Object Extra) (move : Move Parameters Input Outcome Action) :
    Option (Program Object Extra) :=
  (program.turns primitive move).bind fun labels =>
    (replay Scheduler.step program.sched labels).bind fun next =>
      (replay (PrimitiveTasks.step primitive) program.world
        (program.calls next move ++ program.landed next)).map fun world =>
          { sched := next, world := world }

/-- The program keeps its promises to the scheduler, and no answer drops a waiting task. -/
def Proper (drops : Outcome → Bool) (program : Program Object Extra) :
    Move Parameters Input Outcome Action → Prop
  | .act label => Regular program.sched label
  | .callback request outcome =>
      Heard drops program.world
        (.callback request outcome : Label Parameters Input Outcome Action)
  | _ => True

instance (drops : Outcome → Bool) (program : Program Object Extra) :
    (move : Move Parameters Input Outcome Action) → Decidable (Proper drops program move)
  | .act label => inferInstanceAs (Decidable (Regular program.sched label))
  | .callback request outcome => inferInstanceAs (Decidable (drops outcome = true →
      ∀ found ∈ program.world.memory.requests request, found.data = none))
  | .make _ _ | .run _ | .closed _ | .extra _ => isTrue trivial

def start (extra : Extra) : Program Object Extra := { world := { memory := { extra := extra } } }

def entryStage (entry : Entry Object) : Stage :=
  if entry.yielded then .suspended
  else match entry.status with
  | .ready => .fresh
  | .running => .suspended
  | .completed => .settled false
  | .canceled => .settled true

/-- The scheduler and the primitive agree on every task. -/
structure Agrees (program : Program Object Extra) : Prop where
  alive : ∀ t entry, program.world.tasks t = some entry →
    program.sched.live t = true ∧ (program.sched.tasks t).kind = .event
  stages : ∀ t entry, program.world.tasks t = some entry →
    entryStage entry = stage program.sched t
  landed : program.sched.exec = none → program.world.calling = none

structure Coupled (program : Program Object Extra) : Prop where
  nested : ∃ nest, Invariant program.sched nest
  attended : SchedulerWaits.Attended program.sched
  poised : Poised program.sched
  linked : Linked primitive program.world
  agrees : Agrees program

end Machine

section Coupling

variable {Object Parameters Input Outcome Action Extra : Type}
  {primitive : Primitive Object Parameters Input Outcome Action Extra} {drops : Outcome → Bool}
  {program after : Program Object Extra} {move : Move Parameters Input Outcome Action}
  {next : State} {world world' : World Object Extra} {entry : Entry Object} {t : Nat}
  {label : Scheduler.Label}

theorem step_cases (taken : step primitive program move = some after) :
    ∃ labels, program.turns primitive move = some labels ∧
      replay Scheduler.step program.sched labels = some after.sched ∧
      replay (PrimitiveTasks.step primitive) program.world
        (program.calls after.sched move ++ program.landed after.sched) = some after.world := by
  obtain ⟨labels, turns, taken⟩ := Option.bind_eq_some_iff.mp taken
  obtain ⟨next, scheduled, taken⟩ := Option.bind_eq_some_iff.mp taken
  obtain ⟨world, served, rfl⟩ := Option.map_eq_some_iff.mp taken
  exact ⟨labels, turns, scheduled, served⟩

theorem served_once {called : Label Parameters Input Outcome Action}
    (single : program.calls next move = [called])
    (served : replay (PrimitiveTasks.step primitive) program.world
      (program.calls next move ++ program.landed next) = some world) :
    ∃ middle, PrimitiveTasks.step primitive program.world called = some middle ∧
      replay (PrimitiveTasks.step primitive) middle (program.landed next) = some world := by
  rw [single, replay_append] at served
  obtain ⟨middle, first, lastly⟩ := Option.bind_eq_some_iff.mp served
  obtain ⟨middle', calls, rest⟩ := replay_cons first
  cases rest
  exact ⟨middle, calls, lastly⟩

theorem lands (taken : replay (PrimitiveTasks.step primitive) world (program.landed next) =
      some world')
    (same : next.exec = none → world.calling = program.world.calling) :
    world'.tasks = world.tasks ∧ (next.exec = none → world'.calling = none) := by
  unfold Program.landed at taken
  split at taken
  · obtain ⟨last, ends, taken⟩ := replay_cons taken
    cases taken
    simp only [PrimitiveTasks.step, World.callbackEnd] at ends
    split at ends
    · cases ends
    · obtain ⟨memory, -, rfl⟩ := Option.map_eq_some_iff.mp ends
      exact ⟨rfl, fun _ => rfl⟩
  · rename_i apart
    cases taken
    refine ⟨rfl, fun outside => ?_⟩
    rw [same outside]
    by_contra busy
    exact apart ⟨busy, outside⟩

def Unwinds (program : Program Object Extra) (next : State) (t : Nat) : Prop :=
  ∃ context ∈ running program.sched, context.inner = t ∧ program.sched.armed t = true ∧
    next.armed t = false

theorem unwound_tasks (taken : replay (PrimitiveTasks.step primitive) program.world
      (program.unwound next) = some world) :
    world.calling = program.world.calling ∧
      (∀ t, (program.world.tasks t).isSome → (world.tasks t).isSome) ∧
      ∀ t entry, world.tasks t = some entry →
        program.world.tasks t = some entry ∧ ¬Unwinds program next t ∨
          (program.world.tasks t).isSome ∧ Unwinds program next t ∧
            entryStage entry = .settled true := by
  unfold Program.unwound at taken
  split at taken
  · rename_i outside
    cases taken
    refine ⟨rfl, fun _ known => known, fun t entry known => Or.inl ⟨known, ?_⟩⟩
    rintro ⟨context, shown, -⟩
    rw [outside] at shown
    cases shown
  · rename_i context shown
    have only (t : Nat) (unwinds : Unwinds program next t) : t = context.inner := by
      obtain ⟨other, same, inner, -⟩ := unwinds
      rw [shown] at same
      cases same
      exact inner.symm
    split at taken
    · rename_i cut
      obtain ⟨last, cuts, taken⟩ := replay_cons taken
      cases taken
      obtain ⟨old, object, memory, found, -, -, rfl⟩ := cancel_cases cuts
      refine ⟨rfl, fun t known => ?_, fun t entry known => ?_⟩
      · change (Function.update program.world.tasks context.inner _ t).isSome
        by_cases here : t = context.inner
        · rw [here, Function.update_self]
          rfl
        · rw [Function.update_of_ne here]
          exact known
      by_cases here : t = context.inner
      · subst here
        cases (Function.update_self ..).symm.trans known
        exact Or.inr ⟨by simp [found], ⟨context, shown, rfl, cut.2.1, by simpa using cut.2.2⟩, rfl⟩
      · exact Or.inl ⟨(Function.update_of_ne here ..).symm.trans known,
          fun unwinds => here (only t unwinds)⟩
    · rename_i uncut
      cases taken
      refine ⟨rfl, fun _ known => known, fun t entry known => Or.inl ⟨known, ?_⟩⟩
      intro unwinds
      have here := only t unwinds
      obtain ⟨-, -, -, armed, disarmed⟩ := unwinds
      subst here
      exact uncut ⟨by simp [Program.own, known], armed, by simp [disarmed]⟩

theorem destroyed_tasks {gone : List Nat}
    (taken : replay (PrimitiveTasks.step primitive) world (gone.map .destroy) = some world') :
    world'.calling = world.calling ∧ ∀ t entry, world'.tasks t = some entry →
      world.tasks t = some entry ∧ t ∉ gone := by
  induction gone generalizing world with
  | nil =>
      cases taken
      exact ⟨rfl, fun t entry known => ⟨known, by simp⟩⟩
  | cons first rest ih =>
      obtain ⟨middle, destroys, taken⟩ := replay_cons taken
      obtain ⟨calling, kept⟩ := ih taken
      simp only [PrimitiveTasks.step] at destroys
      split at destroys
      · cases destroys
      · split at destroys
        · cases destroys
        · cases destroys
          refine ⟨calling, fun t entry known => ?_⟩
          obtain ⟨found, apart⟩ := kept t entry known
          by_cases here : t = first
          · subst here
            cases (Function.update_self ..).symm.trans found
          · exact ⟨(Function.update_of_ne here ..).symm.trans found, by simp [here, apart]⟩

theorem task_turn (coupled : Coupled primitive program) (regular : Regular program.sched label)
    (taken : Scheduler.step program.sched label = some next)
    (known : program.world.tasks t = some entry) (alive : next.live t = true) :
    SchedulerStages.Turn program.sched label t (stage program.sched t) (stage next t) ∧
      (stage program.sched t = .suspended ↔ program.sched.armed t = true) ∧
      (stage next t = .suspended ↔ next.armed t = true) := by
  obtain ⟨nest, inv⟩ := coupled.nested
  obtain ⟨later, kept, -⟩ := step_kept inv regular taken
  obtain ⟨lives, event⟩ := coupled.agrees.alive t entry known
  exact ⟨step_turn inv kept coupled.attended coupled.poised regular taken (inv.bounded t lives)
    event alive, stage_armed inv, stage_armed kept⟩

theorem stage_kept (coupled : Coupled primitive program) (regular : Regular program.sched label)
    (taken : Scheduler.step program.sched label = some next)
    (known : program.world.tasks t = some entry) (alive : next.live t = true)
    (uncalled : label ≠ .event t)
    (apart : label = .block ∨ label = .skip → ∀ context ∈ running program.sched, context.inner ≠ t)
    (still : ¬Unwinds program next t) : stage next t = stage program.sched t := by
  obtain ⟨turn, armed, disarmed⟩ := task_turn coupled regular taken known alive
  generalize stage program.sched t = before at turn armed ⊢
  generalize stage next t = behind at turn disarmed ⊢
  cases turn with
  | stays => rfl
  | blocks context shown inner why => exact absurd inner (apart (Or.inl why) context shown)
  | passes context shown inner why => exact absurd inner (apart (Or.inr why) context shown)
  | resumes why => exact absurd why uncalled
  | unwinds context shown inner why =>
      refine absurd ⟨context, shown, inner, armed.mp rfl, ?_⟩ still
      simpa using mt disarmed.mpr (by simp)

theorem stage_unwound (coupled : Coupled primitive program) (regular : Regular program.sched label)
    (taken : Scheduler.step program.sched label = some next)
    (known : (program.world.tasks t).isSome) (alive : next.live t = true)
    (unwinds : Unwinds program next t) : stage next t = .settled true := by
  obtain ⟨entry, known⟩ := Option.isSome_iff_exists.mp known
  obtain ⟨turn, before, behind⟩ := task_turn coupled regular taken known alive
  obtain ⟨context, shown, inner, armed, disarmed⟩ := unwinds
  rw [before.mpr armed] at turn
  have free : stage next t ≠ .suspended := by
    intro suspended
    rw [behind.mp suspended] at disarmed
    cases disarmed
  generalize stage next t = ends at turn free ⊢
  cases turn with
  | stays => exact absurd rfl free
  | resumes why =>
      -- a callback comes in the event loop, where no coroutine is unwound
      subst why
      obtain ⟨nest, inv⟩ := coupled.nested
      rw [running, SchedulerWaits.event_outside inv taken] at shown
      cases shown
  | unwinds => rfl

theorem agrees_act (coupled : Coupled primitive program) (regular : Regular program.sched label)
    (taken : step primitive program (.act label) = some after) : Agrees after := by
  obtain ⟨labels, turns, scheduled, served⟩ := step_cases taken
  simp only [Program.turns] at turns
  split at turns
  · rename_i foreign
    cases turns
    obtain ⟨next, stepped, same⟩ := replay_cons scheduled
    cases same
    rw [Program.calls, replay_append, replay_append] at served
    obtain ⟨destroyed, served, lastly⟩ := Option.bind_eq_some_iff.mp served
    obtain ⟨unwound, first, second⟩ := Option.bind_eq_some_iff.mp served
    obtain ⟨calling, -, cut⟩ := unwound_tasks first
    obtain ⟨calling', left⟩ := destroyed_tasks second
    obtain ⟨tasks, outside⟩ := lands lastly fun _ => calling'.trans calling
    have bounded := (step_leaves stepped).allocated
    obtain ⟨nest, inv⟩ := coupled.nested
    -- a task that is left has not been destroyed, and where it was unwound it is canceled
    have own (t : Nat) (entry : Entry Object) (known : after.world.tasks t = some entry) :
        (program.world.tasks t = some entry ∧ ¬Unwinds program after.sched t ∨
          (program.world.tasks t).isSome ∧ Unwinds program after.sched t ∧
            entryStage entry = .settled true) ∧ after.sched.live t = true := by
      rw [tasks] at known
      obtain ⟨known, apart⟩ := left t entry known
      have cases_ := cut t entry known
      refine ⟨cases_, ?_⟩
      by_contra gone
      have there : (program.world.tasks t).isSome := by
        rcases cases_ with ⟨known, -⟩ | ⟨known, -⟩
        · simp [known]
        · exact known
      obtain ⟨old, found⟩ := Option.isSome_iff_exists.mp there
      have allocated := inv.bounded t (coupled.agrees.alive t old found).1
      -- the destructor of a task of the primitive is called where the scheduler drops it
      refine apart (List.mem_filter.mpr ⟨List.mem_range.mpr (by omega), ?_⟩)
      simpa [Program.own, there] using gone
    refine ⟨fun t entry known => ?_, fun t entry known => ?_, outside⟩
    · obtain ⟨why, alive⟩ := own t entry known
      obtain ⟨old, found⟩ : ∃ old, program.world.tasks t = some old := by
        rcases why with ⟨known, -⟩ | ⟨known, -⟩
        · exact ⟨entry, known⟩
        · exact Option.isSome_iff_exists.mp known
      obtain ⟨lives, event⟩ := coupled.agrees.alive t old found
      exact ⟨alive, ((step_leaves stepped).kind t (inv.bounded t lives)).trans event⟩
    · obtain ⟨⟨found, still⟩ | ⟨known, unwinds, ends⟩, alive⟩ := own t entry known
      · rw [coupled.agrees.stages t entry found]
        refine (stage_kept coupled regular stepped found alive ?_ ?_ still).symm
        · rintro rfl
          simp [Program.foreign, Program.own, found] at foreign
        · rintro why context shown rfl
          have here : running program.sched = some context := shown
          rcases why with rfl | rfl <;> simp [Program.foreign, Program.own, here, found] at foreign
      · rw [ends, stage_unwound coupled regular stepped known alive unwinds]
  · cases turns

theorem agrees_put (coupled : Coupled primitive program) (regular : Regular program.sched label)
    (taken : Scheduler.step program.sched label = some next) {last : World Object Extra}
    (tasks : last.tasks = Function.update program.world.tasks t (some entry))
    (other : ∀ other, other ≠ t → (program.world.tasks other).isSome →
      (program.sched.live other = true → next.live other = true) ∧ label ≠ .event other ∧
      (label = .block ∨ label = .skip →
        ∀ context ∈ running program.sched, context.inner ≠ other) ∧
      ¬Unwinds program next other)
    (alive : next.live t = true) (kind : (next.tasks t).kind = .event)
    (stages : entryStage entry = stage next t) (outside : next.exec = none → last.calling = none) :
    Agrees { sched := next, world := last } := by
  obtain ⟨nest, inv⟩ := coupled.nested
  refine ⟨fun found there known => ?_, fun found there known => ?_, outside⟩
  · dsimp only at known ⊢
    rw [tasks] at known
    by_cases here : found = t
    · subst here
      exact ⟨alive, kind⟩
    · rw [Function.update_of_ne here] at known
      obtain ⟨lives, event⟩ := coupled.agrees.alive found there known
      exact ⟨(other found here (by simp [known])).1 lives,
        ((step_leaves taken).kind found (inv.bounded found lives)).trans event⟩
  · dsimp only at known ⊢
    rw [tasks] at known
    by_cases here : found = t
    · subst here
      rw [Function.update_self] at known
      cases known
      exact stages
    · rw [Function.update_of_ne here] at known
      obtain ⟨lives, uncalled, apart, still⟩ := other found here (by simp [known])
      rw [coupled.agrees.stages found there known]
      exact (stage_kept coupled regular taken known
        (lives (coupled.agrees.alive found there known).1) uncalled apart still).symm

theorem unwinds_library (coupled : Coupled primitive program)
    (regular : Regular program.sched label)
    (taken : Scheduler.step program.sched label = some next) (client : label ≠ .tau)
    (known : (program.world.tasks t).isSome) (alive : next.live t = true) :
    ¬Unwinds program next t := by
  intro unwinds
  obtain ⟨entry, found⟩ := Option.isSome_iff_exists.mp known
  obtain ⟨turn, before, -⟩ := task_turn coupled regular taken found alive
  rw [stage_unwound coupled regular taken known alive unwinds] at turn
  obtain ⟨context, shown, inner, armed, disarmed⟩ := unwinds
  rw [before.mpr armed] at turn
  cases turn with
  | unwinds context shown inner why => exact client why

theorem agrees_make (coupled : Coupled primitive program) {parameters : Parameters}
    {uid : Option Nat} (taken : step primitive program (.make parameters uid) = some after) :
    Agrees after := by
  obtain ⟨labels, turns, scheduled, served⟩ := step_cases taken
  cases turns
  obtain ⟨next, stepped, same⟩ := replay_cons scheduled
  cases same
  obtain ⟨made, makes, lastly⟩ := served_once rfl served
  simp only [PrimitiveTasks.step] at makes
  split at makes
  · cases makes
  · obtain ⟨object, -, rfl⟩ := Option.map_eq_some_iff.mp makes
    obtain ⟨tasks, outside⟩ := lands lastly fun _ => rfl
    obtain ⟨alive, kind, fresh⟩ := stage_constructs stepped
    have regular : Regular program.sched (.construct .event uid) := ⟨trivial, trivial, trivial⟩
    have lives (other : Nat) (there : program.sched.live other = true) :
        after.sched.live other = true := SchedulerLives.built_alive stepped there
    refine agrees_put coupled regular stepped tasks (fun other _ known => ?_) alive kind
      (by rw [fresh]; rfl) outside
    obtain ⟨entry, found⟩ := Option.isSome_iff_exists.mp known
    exact ⟨lives other, by simp, by simp, unwinds_library coupled regular stepped (by simp) known
      (lives other (coupled.agrees.alive other entry found).1)⟩

theorem agrees_run (coupled : Coupled primitive program) {input : Input}
    (taken : step primitive program (.run input) = some after) : Agrees after := by
  obtain ⟨labels, turns, scheduled, served⟩ := step_cases taken
  obtain ⟨context, shown, turns⟩ := Option.bind_eq_some_iff.mp turns
  obtain ⟨world, runs, turns⟩ := Option.map_eq_some_iff.mp turns
  subst turns
  obtain ⟨next, stepped, same⟩ := replay_cons scheduled
  cases same
  have single : program.calls after.sched (.run input : Move Parameters Input Outcome Action) =
      [.run context.inner input] := by
    rw [Program.calls, shown]
    rfl
  obtain ⟨ran, again, lastly⟩ := served_once single served
  cases runs.symm.trans again
  obtain ⟨nest, inv⟩ := coupled.nested
  obtain ⟨entry, object, memory, yields, known, ready, -, moved⟩ := ran_cases runs
  obtain ⟨lives, event⟩ := coupled.agrees.alive _ entry known
  obtain ⟨tasks, outside⟩ := lands lastly fun _ => by rw [moved]; rfl
  have yielded : (world.tasks context.inner).any Entry.yielded = yields := by
    simp [moved, World.putTask]
  rw [yielded] at stepped
  have regular : Regular program.sched (if yields = true then .block else .skip) := by
    cases yields <;> exact ⟨trivial, trivial, trivial⟩
  obtain ⟨later, kept, -⟩ := step_kept inv regular stepped
  have client : (if yields = true then Scheduler.Label.block else .skip) ≠ .tau := by
    cases yields <;> simp
  obtain ⟨same, ends⟩ : after.sched.live = program.sched.live ∧
      stage after.sched context.inner = if yields = true then .suspended else .settled false := by
    cases yields with
    | true => exact stage_blocks inv kept shown event stepped
    | false => exact stage_skips inv kept shown event stepped
  rw [moved] at tasks
  refine agrees_put coupled regular stepped tasks (fun other apart known => ?_)
    (by rw [same]; exact lives)
    (((step_leaves stepped).kind _ (inv.bounded _ lives)).trans event) ?_ outside
  · obtain ⟨found, there⟩ := Option.isSome_iff_exists.mp known
    have alive := (coupled.agrees.alive other found there).1
    refine ⟨fun there => by rw [same]; exact there, by cases yields <;> simp, ?_,
      unwinds_library coupled regular stepped client known (by rw [same]; exact alive)⟩
    rintro - other' shown' rfl
    cases shown.symm.trans shown'
    exact apart rfl
  · rw [ends]
    cases yields <;> rfl

theorem agrees_same (coupled : Coupled primitive program) (sched : after.sched = program.sched)
    {middle : World Object Extra} (tasks : middle.tasks = program.world.tasks)
    (calling : middle.calling = program.world.calling)
    (lastly : replay (PrimitiveTasks.step primitive) middle (program.landed after.sched) =
      some after.world) : Agrees after := by
  obtain ⟨same, outside⟩ := lands lastly fun _ => calling
  refine ⟨fun t entry known => ?_, fun t entry known => ?_, outside⟩
  · rw [same, tasks] at known
    rw [sched]
    exact coupled.agrees.alive t entry known
  · rw [same, tasks] at known
    rw [sched]
    exact coupled.agrees.stages t entry known

theorem agrees_callback (coupled : Coupled primitive program) {request : Nat} {outcome : Outcome}
    (taken : step primitive program (.callback request outcome) = some after) : Agrees after := by
  obtain ⟨labels, turns, scheduled, served⟩ := step_cases taken
  simp only [Program.turns] at turns
  split at turns
  · obtain ⟨⟨memory, stands⟩, called, turns⟩ := Option.map_eq_some_iff.mp turns
    subst turns
    obtain ⟨middle, calls, lastly⟩ := served_once rfl served
    obtain ⟨quiet, ⟨memory', behind, called', -, moved⟩ |
      ⟨memory', owner, entry, object, last, behind, called', known, still, -, moved⟩⟩ :=
        callback_cases coupled.linked calls
    · cases called.symm.trans called'
      exact agrees_same coupled (Option.some.inj scheduled).symm (by rw [moved]) (by rw [moved])
        lastly
    · cases called.symm.trans called'
      obtain ⟨next, stepped, same⟩ := replay_cons scheduled
      cases same
      obtain ⟨nest, inv⟩ := coupled.nested
      have regular : Regular program.sched (.event owner) := ⟨trivial, trivial, trivial⟩
      obtain ⟨later, kept, -⟩ := step_kept inv regular stepped
      obtain ⟨same, inside, ends⟩ := stage_resumes inv kept stepped
      obtain ⟨lives, event⟩ := coupled.agrees.alive owner entry known
      obtain ⟨tasks, outside⟩ := lands lastly fun outside => absurd outside inside
      rw [moved] at tasks
      refine agrees_put coupled regular stepped tasks (fun other apart known => ?_)
        (by rw [same]; exact lives)
        (((step_leaves stepped).kind _ (inv.bounded _ lives)).trans event) (by rw [ends]; rfl)
        outside
      obtain ⟨found, there⟩ := Option.isSome_iff_exists.mp known
      have alive := (coupled.agrees.alive other found there).1
      exact ⟨fun there => by rw [same]; exact there, by simp [Ne.symm apart], by simp,
        unwinds_library coupled regular stepped (by simp) known (by rw [same]; exact alive)⟩
  · cases turns

theorem agrees_closed (coupled : Coupled primitive program) {request : Nat}
    (taken : step primitive program (.closed request) = some after) : Agrees after := by
  obtain ⟨labels, turns, scheduled, served⟩ := step_cases taken
  simp only [Program.turns] at turns
  split at turns
  · cases turns
    obtain ⟨middle, closes, lastly⟩ := served_once rfl served
    simp only [PrimitiveTasks.step, World.closed] at closes
    split at closes
    · cases closes
    · split at closes
      · cases closes
        exact agrees_same coupled (Option.some.inj scheduled).symm (by rfl) (by rfl) lastly
      · cases closes
  · cases turns

theorem agrees_extra (coupled : Coupled primitive program) {action : Action}
    (taken : step primitive program (.extra action) = some after) : Agrees after := by
  obtain ⟨labels, turns, scheduled, served⟩ := step_cases taken
  cases turns
  obtain ⟨middle, acts, lastly⟩ := served_once rfl served
  obtain ⟨memory, -, rfl⟩ := Option.map_eq_some_iff.mp acts
  exact agrees_same coupled (Option.some.inj scheduled).symm (by rfl) (by rfl) lastly

theorem heard_calls (plain : ∀ request outcome, move ≠ .callback request outcome) :
    Along (PrimitiveTasks.step primitive) (Heard drops) world (program.calls next move) := by
  refine along_of_forall _ _ fun called member state => ?_
  cases move with
  | act label =>
      rcases List.mem_append.mp member with cut | gone
      · unfold Program.unwound at cut
        split at cut
        · cases cut
        · split at cut
          · cases List.mem_singleton.mp cut
            trivial
          · cases cut
      · obtain ⟨t, -, rfl⟩ := List.mem_map.mp gone
        trivial
  | run input =>
      obtain ⟨context, -, rfl⟩ := List.mem_map.mp member
      trivial
  | callback request outcome => exact absurd rfl (plain request outcome)
  | make parameters uid =>
      cases List.mem_singleton.mp member
      trivial
  | closed request =>
      cases List.mem_singleton.mp member
      trivial
  | extra action =>
      cases List.mem_singleton.mp member
      trivial

theorem heard_landed : Along (PrimitiveTasks.step primitive) (Heard drops) world
    (program.landed next) := by
  refine along_of_forall _ _ fun called member state => ?_
  unfold Program.landed at member
  split at member
  · cases List.mem_singleton.mp member
    trivial
  · cases member

/-- A move is a part of a run of the scheduler and a part of a run of the primitive. -/
theorem step_splits (proper : Proper drops program move)
    (taken : step primitive program move = some after) :
    (∃ labels, Along Scheduler.step Regular program.sched labels ∧
      replay Scheduler.step program.sched labels = some after.sched) ∧
    ∃ labels, Along (PrimitiveTasks.step primitive) (Heard drops) program.world labels ∧
      replay (PrimitiveTasks.step primitive) program.world labels = some after.world := by
  obtain ⟨labels, turns, scheduled, served⟩ := step_cases taken
  constructor
  · refine ⟨labels, ?_, scheduled⟩
    cases move with
    | act label =>
        simp only [Program.turns] at turns
        split at turns
        · cases turns
          refine ⟨proper, ?_⟩
          cases Scheduler.step program.sched label <;> trivial
        · cases turns
    | make parameters uid =>
        cases turns
        exact along_of_forall _ _ fun label member _ => by
          cases List.mem_singleton.mp member
          exact ⟨trivial, trivial, trivial⟩
    | run input =>
        obtain ⟨context, -, turns⟩ := Option.bind_eq_some_iff.mp turns
        obtain ⟨world, -, rfl⟩ := Option.map_eq_some_iff.mp turns
        refine along_of_forall _ _ fun label member _ => ?_
        cases List.mem_singleton.mp member
        split <;> exact ⟨trivial, trivial, trivial⟩
    | callback request outcome =>
        simp only [Program.turns] at turns
        split at turns
        · obtain ⟨⟨memory, stands⟩, -, rfl⟩ := Option.map_eq_some_iff.mp turns
          refine along_of_forall _ _ fun label member _ => ?_
          cases stands with
          | none => cases member
          | some owner =>
              cases List.mem_singleton.mp member
              exact ⟨trivial, trivial, trivial⟩
        · cases turns
    | closed request =>
        simp only [Program.turns] at turns
        split at turns
        · cases turns
          trivial
        · cases turns
    | extra action =>
        cases turns
        trivial
  · refine ⟨_, ?_, served⟩
    rw [replay_append] at served
    obtain ⟨middle, first, -⟩ := Option.bind_eq_some_iff.mp served
    refine along_append ?_ first heard_landed
    -- what `Heard` asks for is about callbacks only
    by_cases called : ∃ request outcome, move = .callback request outcome
    · obtain ⟨request, outcome, rfl⟩ := called
      refine ⟨proper, ?_⟩
      cases PrimitiveTasks.step primitive program.world (.callback request outcome) <;> trivial
    · exact heard_calls fun request outcome same => called ⟨request, outcome, same⟩

structure Reached (primitive : Primitive Object Parameters Input Outcome Action Extra)
    (drops : Outcome → Bool) (extra : Extra) (program : Program Object Extra) : Prop where
  scheduled : ∃ labels, Along Scheduler.step Regular {} labels ∧
    replay Scheduler.step {} labels = some program.sched
  served : ∃ labels,
    Along (PrimitiveTasks.step primitive) (Heard drops) { memory := { extra := extra } } labels ∧
      replay (PrimitiveTasks.step primitive) { memory := { extra := extra } } labels =
        some program.world
  agrees : Agrees program

theorem linked_along (lawful : Lawful primitive drops) (linked : Linked primitive world)
    {labels : List (Label Parameters Input Outcome Action)}
    (along : Along (PrimitiveTasks.step primitive) (Heard drops) world labels)
    (run : replay (PrimitiveTasks.step primitive) world labels = some world') :
    Linked primitive world' :=
  replay_invariant (Linked primitive) (fun _ _ _ linked heard taken =>
    linked_step lawful linked heard taken) linked along run

theorem coupled_of {extra : Extra} (lawful : Lawful primitive drops)
    (reached : Reached primitive drops extra program) : Coupled primitive program := by
  obtain ⟨labels, along, run⟩ := reached.scheduled
  obtain ⟨calls, heard, served⟩ := reached.served
  obtain ⟨nested, attended, poised⟩ := poised_along along run
  exact ⟨nested, attended, poised, linked_along lawful (initial_linked extra) heard served,
    reached.agrees⟩

/-- The step lemma: a move goes on with both runs, and the agreement is kept. -/
theorem reached_step {extra : Extra} (lawful : Lawful primitive drops)
    (reached : Reached primitive drops extra program) (proper : Proper drops program move)
    (taken : step primitive program move = some after) :
    Reached primitive drops extra after := by
  have coupled := coupled_of lawful reached
  obtain ⟨⟨more, regular, scheduled⟩, others, heard, served⟩ := step_splits proper taken
  obtain ⟨labels, along, run⟩ := reached.scheduled
  obtain ⟨calls, hearing, serving⟩ := reached.served
  refine ⟨⟨labels ++ more, along_append along run regular, ?_⟩,
    ⟨calls ++ others, along_append hearing serving heard, ?_⟩, ?_⟩
  · rw [replay_append, run]
    exact scheduled
  · rw [replay_append, serving]
    exact served
  · cases move with
    | act label => exact agrees_act coupled proper taken
    | make parameters uid => exact agrees_make coupled taken
    | run input => exact agrees_run coupled taken
    | callback request outcome => exact agrees_callback coupled taken
    | closed request => exact agrees_closed coupled taken
    | extra action => exact agrees_extra coupled taken

theorem reached_along {extra : Extra} (lawful : Lawful primitive drops)
    {moves : List (Move Parameters Input Outcome Action)}
    (along : Along (step primitive) (Proper drops) (start extra) moves)
    (run : replay (step primitive) (start extra) moves = some program) :
    Reached primitive drops extra program := by
  have first : Reached primitive drops extra (start extra) := by
    refine ⟨⟨[], trivial, rfl⟩, ⟨[], trivial, rfl⟩, ?_⟩
    constructor <;> simp [start]
  exact replay_invariant (Reached primitive drops extra)
    (fun _ _ _ reached proper taken => reached_step lawful reached proper taken) first along run

end Coupling

section Adequacy

variable {Object Parameters Input Outcome Action Extra : Type}
  {primitive : Primitive Object Parameters Input Outcome Action Extra} {drops : Outcome → Bool}
  {program after : Program Object Extra} {move : Move Parameters Input Outcome Action}
  {s next : State} {nest : Nest} {world : World Object Extra} {entry : Entry Object} {t : Nat}
  {label : Scheduler.Label}

/-- The functions of the primitive do not fail where the requests are as they have to be. -/
structure Obliging (primitive : Primitive Object Parameters Input Outcome Action Extra) :
    Prop where
  back : ∀ object memory place found, primitive.request object = some place →
    memory.requests place = some found → found.phase = .called →
      ∃ result, primitive.back object memory = some result
  cancel : ∀ object memory place task, primitive.request object = some place →
    memory.requests place = some { data := some task } →
      ∃ result, primitive.cancel object memory = some result
  behind : ∀ place memory, memory.requests place ≠ none →
    ∃ memory', primitive.behind place memory = some memory'

theorem yielded_armed (coupled : Coupled primitive program)
    (known : program.world.tasks t = some entry) :
    entry.yielded = true ↔ program.sched.armed t = true := by
  obtain ⟨nest, inv⟩ := coupled.nested
  rw [← stage_armed inv, ← coupled.agrees.stages t entry known, entryStage]
  cases still : entry.yielded with
  | true => simp
  | false =>
      have ended := (coupled.linked.rests t entry known still).ended
      cases status : entry.status <;> simp_all

theorem step_proceeds {labels : List Scheduler.Label}
    (turns : program.turns primitive move = some labels)
    (scheduled : replay Scheduler.step program.sched labels = some next)
    (served : replay (PrimitiveTasks.step primitive) program.world (program.calls next move) =
      some world)
    (lands : ∃ last, replay (PrimitiveTasks.step primitive) world (program.landed next) =
      some last) :
    ∃ after, step primitive program move = some after ∧ after.sched = next := by
  obtain ⟨last, lands⟩ := lands
  refine ⟨{ sched := next, world := last }, ?_, rfl⟩
  simp only [step, turns, scheduled, Option.bind_some, replay_append, served, lands,
    Option.map_some]

theorem landed_proceeds (obliging : Obliging primitive) (linked : Linked primitive world)
    (same : world.calling = program.world.calling) :
    ∃ last, replay (PrimitiveTasks.step primitive) world (program.landed next) = some last := by
  unfold Program.landed
  split
  · rename_i back
    obtain ⟨place, busy⟩ := Option.ne_none_iff_exists'.mp back.1
    obtain ⟨last, ends⟩ := callbackEnd_proceeds linked (same.trans busy) (obliging.behind place)
    exact ⟨last, by simp [replay, PrimitiveTasks.step, ends]⟩
  · exact ⟨world, rfl⟩

theorem plain_proceeds (lawful : Lawful primitive drops) (obliging : Obliging primitive)
    (coupled : Coupled primitive program) {labels : List Scheduler.Label}
    (plain : ∀ request outcome, move ≠ .callback request outcome)
    (turns : program.turns primitive move = some labels)
    (scheduled : replay Scheduler.step program.sched labels = some next)
    (served : replay (PrimitiveTasks.step primitive) program.world (program.calls next move) =
      some world) (calling : world.calling = program.world.calling) :
    ∃ after, step primitive program move = some after ∧ after.sched = next := by
  have linked : Linked primitive world :=
    linked_along lawful coupled.linked (heard_calls plain) served
  exact step_proceeds turns scheduled served (landed_proceeds obliging linked calling)

theorem landed_nowhere (quiet : program.world.calling = none) :
    replay (PrimitiveTasks.step primitive) world (program.landed next) = some world := by
  simp [Program.landed, quiet, replay]

theorem unwound_proceeds (obliging : Obliging primitive) (coupled : Coupled primitive program) :
    ∃ world, replay (PrimitiveTasks.step primitive) program.world (program.unwound next) =
      some world := by
  unfold Program.unwound
  split
  · exact ⟨program.world, rfl⟩
  · rename_i context shown
    split
    · rename_i cut
      obtain ⟨entry, known⟩ := Option.isSome_iff_exists.mp cut.1
      have still := (yielded_armed coupled known).mpr cut.2.1
      obtain ⟨last, cuts⟩ := cancel_proceeds coupled.linked (context.point ≠ .throwing) known still
        fun place own held => obliging.cancel _ _ _ _ own held
      exact ⟨last, by simpa [replay, PrimitiveTasks.step] using cuts⟩
    · exact ⟨program.world, rfl⟩

theorem destroyed_proceeds {gone : List Nat} (apart : gone.Nodup)
    (idle : ∀ t ∈ gone, ∃ entry, world.tasks t = some entry ∧ entry.yielded = false) :
    ∃ last, replay (PrimitiveTasks.step primitive) world (gone.map .destroy) = some last := by
  induction gone generalizing world with
  | nil => exact ⟨world, rfl⟩
  | cons first rest ih =>
      obtain ⟨fresh, later⟩ := List.nodup_cons.mp apart
      obtain ⟨entry, known, free⟩ := idle first (by simp)
      have others : ∀ t ∈ rest, ∃ entry, Function.update world.tasks first none t = some entry ∧
          entry.yielded = false := by
        intro t member
        obtain ⟨entry, found, free⟩ := idle t (by simp [member])
        have other : t ≠ first := by
          rintro rfl
          exact fresh member
        exact ⟨entry, (Function.update_of_ne other ..).trans found, free⟩
      obtain ⟨last, goes⟩ : ∃ last, replay (PrimitiveTasks.step primitive)
          { world with tasks := Function.update world.tasks first none } (rest.map .destroy) =
            some last := ih later others
      refine ⟨last, ?_⟩
      simp only [List.map_cons, replay, PrimitiveTasks.step, known, free, Bool.false_eq_true,
        if_false, Option.bind_some]
      exact goes

theorem destroyed_idle (coupled : Coupled primitive program) (regular : Regular program.sched label)
    (foreign : program.foreign label = true)
    (taken : Scheduler.step program.sched label = some next)
    (first : replay (PrimitiveTasks.step primitive) program.world (program.unwound next) =
      some world) (member : t ∈ program.destroyed next) :
    ∃ entry, world.tasks t = some entry ∧ entry.yielded = false := by
  obtain ⟨-, known⟩ := List.mem_filter.mp member
  replace known : program.own t = true ∧ next.live t = false := by simpa using known
  obtain ⟨-, kept, cut⟩ := unwound_tasks first
  obtain ⟨entry, found⟩ := Option.isSome_iff_exists.mp (kept t known.1)
  refine ⟨entry, found, ?_⟩
  obtain ⟨nest, inv⟩ := coupled.nested
  obtain ⟨later, after, -⟩ := step_kept inv regular taken
  rcases cut t entry found with ⟨before, still⟩ | ⟨-, -, ends⟩
  · -- a task that loses its pending callback without its event has been unwound
    by_contra yielded
    have armed := (yielded_armed coupled before).mp (by simpa using yielded)
    have disarmed : next.armed t = false := by
      by_contra pending
      have alive := armed_alive after (by simpa using pending)
      rw [known.2] at alive
      cases alive
    rcases SchedulerWrites.step_armed taken t with same | ⟨now, -⟩ |
      ⟨-, rfl | ⟨context, shown, inner⟩⟩
    · rw [same, armed] at disarmed
      cases disarmed
    · rw [now] at disarmed
      cases disarmed
    · simp [Program.foreign, known.1] at foreign
    · exact still ⟨context, shown, inner.symm, armed, disarmed⟩
  · unfold entryStage at ends
    by_contra yielded
    rw [if_pos (by simpa using yielded)] at ends
    cases ends

theorem act_proceeds (lawful : Lawful primitive drops) (obliging : Obliging primitive)
    (coupled : Coupled primitive program) (foreign : program.foreign label = true)
    (regular : Regular program.sched label)
    (taken : Scheduler.step program.sched label = some next) :
    ∃ after, step primitive program (.act label) = some after ∧ after.sched = next := by
  obtain ⟨middle, first⟩ : ∃ middle, replay (PrimitiveTasks.step primitive) program.world
      (program.unwound next) = some middle := unwound_proceeds obliging coupled
  have apart : (program.destroyed next).Nodup := List.nodup_range.filter _
  obtain ⟨last, second⟩ : ∃ last, replay (PrimitiveTasks.step primitive) middle
      ((program.destroyed next).map .destroy) = some last :=
    destroyed_proceeds apart fun t member =>
      destroyed_idle coupled regular foreign taken first member
  have served : replay (PrimitiveTasks.step primitive) program.world
      (program.calls next (.act label)) = some last := by
    rw [Program.calls, replay_append, first]
    exact second
  have same := (destroyed_tasks second).1.trans (unwound_tasks first).1
  exact plain_proceeds lawful obliging coupled (by simp) (if_pos foreign) (by simp [replay, taken])
    served same

theorem make_proceeds (lawful : Lawful primitive drops) (obliging : Obliging primitive)
    (coupled : Coupled primitive program) {parameters : Parameters} {uid : Option Nat}
    (taken : Scheduler.step program.sched (.construct .event uid) = some next)
    (builds : primitive.build parameters program.world.memory ≠ none) :
    ∃ after, step primitive program (.make parameters uid) = some after ∧ after.sched = next := by
  obtain ⟨object, builds⟩ := Option.ne_none_iff_exists'.mp builds
  obtain ⟨nest, inv⟩ := coupled.nested
  -- what the scheduler allocates next is no task of the primitive yet
  have absent : program.world.tasks program.sched.next = none := by
    by_contra there
    obtain ⟨entry, known⟩ := Option.ne_none_iff_exists'.mp there
    have bound := inv.bounded _ (coupled.agrees.alive _ entry known).1
    omega
  have served : replay (PrimitiveTasks.step primitive) program.world
      (program.calls next (.make parameters uid)) =
        some (program.world.putTask program.sched.next { object := object }) := by
    simp [Program.calls, replay, PrimitiveTasks.step, absent, builds]
  exact plain_proceeds lawful obliging coupled (by simp) rfl (by simp [replay, taken]) served
    (by rfl)

theorem entered_proceeds (inv : Invariant s nest) {context : Scheduler.Context}
    (shown : context ∈ running s) (point : context.point = .enter)
    (event : (s.tasks context.inner).kind = .event) (yields : Bool) :
    ∃ next, Scheduler.step s (if yields = true then .block else .skip) = some next := by
  obtain ⟨k, exec, found⟩ := running_at shown
  obtain ⟨mode, rest, rfl⟩ := running_nest inv exec
  have placed := SchedulerSteps.placed_of inv found
  simp only [Placed, point] at placed
  obtain ⟨⟨token, rfl⟩, -⟩ := placed
  rw [SchedulerProgress.context_step inv found]
  cases yields with
  | true =>
      simp only [if_true, Scheduler.contextStep, point, event]
      rw [SchedulerSwitch.taskYield_yields inv found]
      exact ⟨_, rfl⟩
  | false =>
      simp only [Bool.false_eq_true, if_false, Scheduler.contextStep, point, event]
      exact ⟨_, rfl⟩

theorem calls_run {context : Scheduler.Context} {input : Input}
    (shown : context ∈ running program.sched)
    (ran : program.world.run primitive context.inner input = some world) (next : State) :
    replay (PrimitiveTasks.step primitive) program.world (program.calls next (.run input)) =
      some world := by
  have here : running program.sched = some context := shown
  simp [Program.calls, here, replay, PrimitiveTasks.step, ran]

theorem run_proceeds (lawful : Lawful primitive drops) (obliging : Obliging primitive)
    (coupled : Coupled primitive program) {context : Scheduler.Context} {input : Input}
    (shown : context ∈ running program.sched) (point : context.point = .enter)
    (known : program.world.tasks context.inner = some entry)
    (runs : primitive.run context.inner input entry.object program.world.memory ≠ none) :
    ∃ after, step primitive program (.run input) = some after := by
  obtain ⟨⟨object, memory, yields⟩, runs⟩ := Option.ne_none_iff_exists'.mp runs
  obtain ⟨nest, inv⟩ := coupled.nested
  obtain ⟨-, event⟩ := coupled.agrees.alive _ entry known
  have ready : entry.status = .ready := by
    have fresh : stage program.sched context.inner = .fresh :=
      if_pos (Or.inr ⟨context, shown, point, rfl⟩)
    rw [← coupled.agrees.stages _ entry known, entryStage] at fresh
    cases still : entry.yielded <;> cases status : entry.status <;> simp_all
  have ran : program.world.run primitive context.inner input =
      some ({ program.world with memory := memory }.putTask context.inner
        { entry with
          object := object
          status := if yields then .running else .completed
          yielded := yields }) := by
    simp [World.run, known, ready, runs]
  have here : running program.sched = some context := shown
  have turns : program.turns primitive (.run input) =
      some [if yields = true then .block else .skip] := by
    simp [Program.turns, here, ran, World.putTask]
  obtain ⟨next, taken⟩ : ∃ next, Scheduler.step program.sched
      (if yields = true then .block else .skip) = some next :=
    entered_proceeds inv shown point event yields
  have served := calls_run shown ran next
  obtain ⟨after, goes, -⟩ := plain_proceeds lawful obliging coupled (by simp) turns
    (by simp [replay, taken]) served (by rfl)
  exact ⟨after, goes⟩

theorem callback_goes (lawful : Lawful primitive drops) (obliging : Obliging primitive)
    (coupled : Coupled primitive program) (loop : program.sched.exec = none) {request : Nat}
    {outcome : Outcome} (called : primitive.callback request outcome program.world.objects
      program.world.memory ≠ none) :
    ∃ after, step primitive program (.callback request outcome) = some after := by
  obtain ⟨⟨memory, stands⟩, called⟩ := Option.ne_none_iff_exists'.mp called
  have quiet := coupled.agrees.landed loop
  obtain ⟨last, calls⟩ := callback_proceeds lawful coupled.linked quiet called
    (obliging.behind request) fun object memory found => obliging.back object memory request found
  have turns : program.turns primitive (.callback request outcome) =
      some ((stands.map fun owner => Scheduler.Label.event owner.1).toList) := by
    simp [Program.turns, loop, called]
  obtain ⟨next, taken⟩ : ∃ next, replay Scheduler.step program.sched
      ((stands.map fun owner => Scheduler.Label.event owner.1).toList) = some next := by
    obtain ⟨-, ⟨memory', behind, called', -, -⟩ |
      ⟨memory', owner, entry, object, after, behind, called', known, still, -, -⟩⟩ :=
        callback_cases coupled.linked calls
    · -- nobody waits for the answer, and the scheduler takes no part in the move
      cases called.symm.trans called'
      exact ⟨program.sched, rfl⟩
    · cases called.symm.trans called'
      obtain ⟨nest, inv⟩ := coupled.nested
      obtain rfl := SchedulerProgress.loop_nest inv loop
      obtain ⟨next, taken⟩ := Option.ne_none_iff_exists'.mp
        ((SchedulerProgress.loop_enabled inv).1 ((yielded_armed coupled known).mp still))
      refine ⟨next, ?_⟩
      simp [replay, Scheduler.step, loop, taken]
  have served : replay (PrimitiveTasks.step primitive) program.world
      (program.calls next (.callback request outcome)) = some last := by
    simpa [Program.calls, replay, PrimitiveTasks.step] using calls
  obtain ⟨after, goes, -⟩ := step_proceeds turns taken served ⟨last, landed_nowhere quiet⟩
  exact ⟨after, goes⟩

theorem closed_proceeds (coupled : Coupled primitive program) (loop : program.sched.exec = none)
    {request : Nat} {found : Request} (there : program.world.memory.requests request = some found)
    (closing : found.phase = .closing) :
    ∃ after, step primitive program (.closed request) = some after := by
  have quiet := coupled.agrees.landed loop
  have served : replay (PrimitiveTasks.step primitive) program.world
      (program.calls program.sched (.closed request)) =
        some { program.world with memory := program.world.memory.put request none } := by
    simp [Program.calls, replay, PrimitiveTasks.step, World.closed, there, quiet, closing]
  have turns : program.turns primitive (.closed request) = some [] := if_pos loop
  obtain ⟨after, goes, -⟩ := step_proceeds turns rfl served ⟨_, landed_nowhere quiet⟩
  exact ⟨after, goes⟩

/-- The scheduler and the primitive keep to what each of them takes for granted of the other, and
no step of the one is held up by the other. -/
structure Cooperates (primitive : Primitive Object Parameters Input Outcome Action Extra)
    (drops : Outcome → Bool) (extra : Extra) (program : Program Object Extra) : Prop
    extends Reached primitive drops extra program where
  acts : ∀ label next, program.foreign label = true → Regular program.sched label →
    Scheduler.step program.sched label = some next →
      ∃ after, step primitive program (.act label) = some after ∧ after.sched = next
  makes : ∀ parameters uid next,
    Scheduler.step program.sched (.construct .event uid) = some next →
      primitive.build parameters program.world.memory ≠ none →
        ∃ after, step primitive program (.make parameters uid) = some after ∧ after.sched = next
  runs : ∀ context ∈ running program.sched, context.point = .enter →
    ∀ entry input, program.world.tasks context.inner = some entry →
      primitive.run context.inner input entry.object program.world.memory ≠ none →
        ∃ after, step primitive program (.run input) = some after
  callbacks : program.sched.exec = none → ∀ request outcome,
    primitive.callback request outcome program.world.objects program.world.memory ≠ none →
      ∃ after, step primitive program (.callback request outcome) = some after
  closes : program.sched.exec = none → ∀ request found,
    program.world.memory.requests request = some found → found.phase = .closing →
      ∃ after, step primitive program (.closed request) = some after

/-- The run theorem. -/
theorem programs_cooperate (lawful : Lawful primitive drops) (obliging : Obliging primitive)
    {extra : Extra} {moves : List (Move Parameters Input Outcome Action)}
    (along : Along (step primitive) (Proper drops) (start extra) moves)
    (run : replay (step primitive) (start extra) moves = some program) :
    Cooperates primitive drops extra program := by
  have reached := reached_along lawful along run
  have coupled := coupled_of lawful reached
  exact {
    toReached := reached
    acts := fun _ _ foreign regular taken =>
      act_proceeds lawful obliging coupled foreign regular taken
    makes := fun _ _ _ taken builds => make_proceeds lawful obliging coupled taken builds
    runs := fun _ shown point _ _ known runs =>
      run_proceeds lawful obliging coupled shown point known runs
    callbacks := fun loop _ _ called => callback_goes lawful obliging coupled loop called
    closes := fun loop _ _ there closing => closed_proceeds coupled loop there closing }

end Adequacy

section Sleeping

open SleepTimers

theorem sleep_obliging : Obliging sleep where
  back _ _ _ _ own there called := close_enabled own there (by simp [called])
  cancel _ _ _ _ own there := close_enabled own there (by simp)
  behind _ memory _ := ⟨memory, rfl⟩

/-- `any_of(sleep(20), sleep(30))`: the first one wakes up and the second one is cancelled. -/
def raceOfSleeps : List (Move Nat Nat Unit Nat) :=
  [.act (.construct .user (some 0)), .act (.cocoflow 0), .act .tau, .make 20 (some 1),
    .make 30 (some 2), .act (.construct (.group .anyOf [1, 2]) none), .act (.await 3), .act .tau,
    .act .tau, .run 10, .act .tau, .act .tau, .run 11, .act .tau, .act .tau, .act .tau, .extra 20,
    .callback 10 ()] ++ List.replicate 11 (.act .tau) ++
  [.act (.destroy 2), .act .ret, .act .tau, .closed 10, .closed 11]

theorem programs_cooperate_race : ∃ program,
    replay (step sleep) (start {}) raceOfSleeps = some program ∧
      (program.world.tasks 1).map (fun entry => (entry.resumed, entry.cancelled)) = some (1, 0) ∧
      program.world.tasks 2 = none ∧ Cooperates sleep (fun _ => false) {} program := by
  have reached : (replay (step sleep) (start {}) raceOfSleeps).isSome := by decide +kernel
  have proper : Along (step sleep) (Proper fun _ => false) (start {}) raceOfSleeps := by
    decide +kernel
  have woken : (((replay (step sleep) (start {}) raceOfSleeps).get reached).world.tasks 1).map
      (fun entry => (entry.resumed, entry.cancelled)) = some (1, 0) := by decide +kernel +revert
  have gone : (((replay (step sleep) (start {}) raceOfSleeps).get reached).world.tasks 2).isNone :=
    by decide +kernel +revert
  have run := (Option.some_get reached).symm
  exact ⟨_, run, woken, by simpa using gone,
    programs_cooperate sleep_lawful sleep_obliging proper run⟩

end Sleeping

end Cocoflow.PrimitivePrograms
