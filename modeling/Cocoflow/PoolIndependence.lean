import Mathlib.Data.List.Basic
import Mathlib.Logic.Function.Basic
import Cocoflow.LabelledRuns
import Cocoflow.PooledScheduler
import Cocoflow.ThreadRefinement

/-!
Which ids the pools hand out cannot be seen in the control flow. A program whose bodies do not
look at ids or statuses makes the same moves whatever the sizes of the pools are, as long as
every task that it starts finds an id. Both runs are then runs of the scheduler without ids.

The acts that are compared are the calls of `run`, the switches back to a coroutine, the tasks
that reach the status completed, the calls of `cancel`, and the answer `-1` of `await` and
`start`, which is what a body learns from them.
-/

namespace Cocoflow.PoolIndependence

open LabelledRuns Scheduler SchedulerNest ThreadScheduler ThreadErasure ThreadRefinement
open PooledScheduler (Pooled Move Accounted takeId handedBack)

inductive Act where
  | run (t : Nat)
  | resume (t : Nat)
  | complete (t : Nat)
  | cancel (t : Nat)
  | refuse (t : Nat)
  deriving DecidableEq

def Unbegun (status : Status) : Prop := status = .ready ∨ status = .limited

instance (status : Status) : Decidable (Unbegun status) :=
  inferInstanceAs (Decidable (_ ∨ _))

section Acts

variable (s : State)

/-- The calls of `cancel()` of the next step: in a handler, and in a yield that finds the
signal and was meant. -/
def cancelCalls : Label → List Nat
  | .tau =>
      match SchedulerRuns.running s with
      | none => []
      | some context =>
          match context.point with
          | .throwing => [context.inner]
          | .yielded _ =>
              if s.signal ∧ (s.tasks context.inner).status = .canceled then [context.inner] else []
          | _ => []
  | _ => []

def refusals : Label → List Nat
  | .await t | .start t => if Unbegun (s.tasks t).status then [] else [t]
  | _ => []

def begins (s' : State) : List Nat :=
  (List.range s'.next).filter fun t =>
    (s'.tasks t).status = .running ∧ (s.tasks t).status ≠ .running

/-- The task in which a coroutine goes on, if control has come back to it. -/
def resumes (s' : State) : List Nat :=
  match SchedulerRuns.running s' with
  | none => []
  | some context =>
      if (SchedulerRuns.running s).map Context.base ≠ some context.base ∧ context.point ≠ .enter
      then [context.inner] else []

def acts (label : Label) (s' : State) : List Act :=
  (refusals s label).map .refuse ++ (cancelCalls s label).map .cancel ++
    (s'.done.drop s.done.length).map .complete ++ (begins s s').map .run ++
    (resumes s s').map .resume

end Acts

def shows (p : Pooled) (move : Move) : List Act :=
  match move, PooledScheduler.step p move with
  | .act label, some next => acts p.sched label next.sched
  | _, _ => []

/-- The same move, in a program whose classes have these sizes. -/
def sized (size : Nat → Nat) : Move → Move
  | .init cls _ => .init cls (size cls)
  | move => move

def Fed (p : Pooled) : Move → Prop
  | .act label => ThreadRefinement.Fed p.sched label
  | _ => True

instance (p : Pooled) : (move : Move) → Decidable (Fed p move)
  | .act label => inferInstanceAs (Decidable (ThreadRefinement.Fed p.sched label))
  | .init _ _ | .construct _ _ | .userThrow => isTrue trivial

/-- Tasks on which nothing has been done may be ready in one run and limited in the other. -/
def SameStatus (one two : Status) : Prop := one = two ∨ Unbegun one ∧ Unbegun two

section Erased

variable {s r s' r' : State} {nest twin : Nest} {label : Label}

theorem running_erased (wired : Wired s) :
    SchedulerRuns.running s = (erase s).running.map Thread.context := by
  unfold SchedulerRuns.running Machine.running
  cases running : s.exec with
  | none =>
      have named : (erase s).exec = none := congrArg (name s) running
      rw [named]
      rfl
  | some k =>
      cases found : s.contexts k with
      | none => exact absurd found (wired.exec k running)
      | some context =>
          have named : (erase s).exec = some context.base :=
            (congrArg (name s) running).trans (name_found found)
          have here : (erase s).threads context.base = some (thread s context) :=
            threads_base (wired.owned k context found _ (base_mem context)) found
          rw [named, Option.bind_some, Option.bind_some, here, found]
          rfl

theorem running_same (one : Wired s) (two : Wired r) (same : erase s = erase r) :
    SchedulerRuns.running s = SchedulerRuns.running r := by
  rw [running_erased one, running_erased two, same]

theorem status_same (same : erase s = erase r) (t : Nat) {status : Status}
    (begun : status ≠ .ready) (given : status ≠ .limited) :
    (s.tasks t).status = status ↔ (r.tasks t).status = status := by
  have jobs : job (s.tasks t) = job (r.tasks t) := congrFun (congrArg Machine.jobs same) t
  rw [← job_status begun given, jobs, job_status begun given]

theorem unbegun_same (same : erase s = erase r) (t : Nat) :
    Unbegun (s.tasks t).status ↔ Unbegun (r.tasks t).status := by
  have jobs : job (s.tasks t) = job (r.tasks t) := congrFun (congrArg Machine.jobs same) t
  unfold Unbegun
  rw [← job_new, jobs, job_new]

theorem sameStatus_of (same : erase s = erase r) (t : Nat) :
    SameStatus (s.tasks t).status (r.tasks t).status := by
  by_cases fresh : Unbegun (s.tasks t).status
  · exact Or.inr ⟨fresh, (unbegun_same same t).mp fresh⟩
  · have begun : (s.tasks t).status ≠ .ready := fun is => fresh (Or.inl is)
    have given : (s.tasks t).status ≠ .limited := fun is => fresh (Or.inr is)
    exact Or.inl ((status_same same t begun given).mp rfl).symm

theorem acts_same (one : Wired s) (two : Wired r) (oneNext : Wired s') (twoNext : Wired r')
    (same : erase s = erase r) (after : erase s' = erase r') :
    acts r label r' = acts s label s' := by
  have now := running_same one two same
  have later := running_same oneNext twoNext after
  have signal : s.signal = r.signal := congrArg Machine.signal same
  have done : s.done = r.done := congrArg Machine.done same
  have doneNext : s'.done = r'.done := congrArg Machine.done after
  have bound : s'.next = r'.next := congrArg Machine.next after
  have canceled (t : Nat) : (s.tasks t).status = .canceled ↔ (r.tasks t).status = .canceled :=
    status_same same t (by decide) (by decide)
  have runs (t : Nat) : (s.tasks t).status = .running ↔ (r.tasks t).status = .running :=
    status_same same t (by decide) (by decide)
  have runsNext (t : Nat) : (s'.tasks t).status = .running ↔ (r'.tasks t).status = .running :=
    status_same after t (by decide) (by decide)
  have calls : cancelCalls r label = cancelCalls s label := by
    unfold cancelCalls
    simp only [now, signal, canceled]
  have refused : refusals r label = refusals s label := by
    unfold refusals
    simp only [unbegun_same same]
  have starts : begins r r' = begins s s' := by
    unfold begins
    simp only [bound, ne_eq, runs, runsNext]
  have returns : resumes r r' = resumes s s' := by
    unfold resumes
    rw [now, later]
  unfold acts
  rw [refused, calls, starts, returns, done, doneNext]

theorem engaged_erased (wired : Wired s) (t : Nat) :
    SchedulerRuns.Engaged s t ↔
      ∃ base thread, (erase s).threads base = some thread ∧ t ∈ thread.context.chain := by
  constructor
  · rintro ⟨context, place, member⟩
    obtain ⟨k, -, found⟩ := Option.bind_eq_some_iff.mp place
    exact ⟨context.base, thread s context,
      threads_base (wired.owned k context found _ (base_mem context)) found, member⟩
  · rintro ⟨base, there, found, member⟩
    obtain ⟨k, context, -, place, -, rfl⟩ := threads_some found
    refine ⟨context, ?_, member⟩
    rw [wired.owned k context place t member]
    exact place

theorem claimed_erased (inv : Invariant s nest) (t : Nat) :
    SchedulerRuns.Claimed s t ↔
      ∃ base thread, (erase s).threads base = some thread ∧
        opened thread.context.point = true ∧
        t ∈ SchedulerRuns.childrenOf ((erase s).jobs thread.context.inner).kind := by
  have wired := wired_of inv
  constructor
  · rintro ⟨o, -, context, place, rfl, open_, member⟩
    obtain ⟨k, -, found⟩ := Option.bind_eq_some_iff.mp place
    exact ⟨context.base, thread s context,
      threads_base (wired.owned k context found _ (base_mem context)) found, open_, member⟩
  · rintro ⟨base, there, found, open_, member⟩
    obtain ⟨k, context, -, place, -, rfl⟩ := threads_some found
    obtain ⟨live, own⟩ := (inv.sound k context place).owned _ (inner_mem context)
    refine ⟨context.inner, inv.bounded _ live, context, ?_, rfl, open_, member⟩
    rw [own]
    exact place

theorem regular_same (one : Invariant s nest) (two : Invariant r twin) (same : erase s = erase r)
    (fed : ThreadRefinement.Fed r label) (regular : SchedulerRuns.Regular s label) :
    SchedulerRuns.Regular r label := by
  have engaged (t : Nat) : SchedulerRuns.Engaged s t ↔ SchedulerRuns.Engaged r t := by
    rw [engaged_erased (wired_of one), engaged_erased (wired_of two), same]
  have claimed (t : Nat) : SchedulerRuns.Claimed s t ↔ SchedulerRuns.Claimed r t := by
    rw [claimed_erased one, claimed_erased two, same]
  have now := running_same (wired_of one) (wired_of two) same
  have unbegun (t : Nat) := unbegun_same same t
  have kinds (t : Nat) : (s.tasks t).kind = (r.tasks t).kind :=
    congrArg Job.kind (congrFun (congrArg Machine.jobs same) t)
  have current : s.current = r.current := congrArg Machine.current same
  obtain ⟨disciplined, caller, atOnce⟩ := regular
  refine ⟨?_, ?_, ?_⟩
  · cases label <;> simp only [SchedulerRuns.Disciplined] at disciplined ⊢
    case await t =>
        rw [← engaged, ← claimed]
        exact ⟨disciplined.1, fun new => disciplined.2 ((unbegun t).mpr new)⟩
    case start t =>
        rw [← engaged, ← claimed]
        exact disciplined
    case destroy t =>
        rw [← engaged, ← claimed]
        exact disciplined
    case uninterruptable t =>
        rw [← engaged]
        exact disciplined
    case cocoflow t =>
        rw [← claimed]
        -- a task that is ready in one run has an id in the other one as well
        exact ⟨((unbegun t).mp (Or.inl disciplined.1)).resolve_right fed, disciplined.2⟩
    case tau =>
        rw [← now]
        intro context running enters
        rw [← kinds]
        obtain ⟨nodup, free⟩ := disciplined context running enters
        exact ⟨nodup, fun t member => (claimed t).not.mp (free t member)⟩
  · cases label <;> simp only [SchedulerRuns.CallerCurrent] at caller ⊢
    case await t =>
        rw [← now, ← current]
        exact fun new => caller ((unbegun t).mpr new)
  · cases label <;> simp only [SchedulerRuns.CancelsAtOnce] at atOnce ⊢
    case tau =>
        rw [← now]
        intro context running
        rw [← kinds]
        exact atOnce context running

end Erased

section Twins

variable {p p' q : Pooled} {size other : Nat → Nat} {move : Move}

/-- Two runs that look the same without the ids, with pools for the same classes. -/
structure Twins (p q : Pooled) : Prop where
  first : Accounted p
  second : Accounted q
  same : erase p.sched = erase q.sched
  known : ∀ cls, (p.classes cls).isSome = (q.classes cls).isSome

theorem erase_takeId {s : State} {nest : Nest} (inv : Invariant s nest) {kind : Kind}
    {built : State} (taken : Scheduler.step s (.construct kind none) = some built) (given : Nat) :
    erase (takeId built s.next given) = erase built := by
  have regular : SchedulerRuns.Regular s (.construct kind none) := ⟨trivial, trivial, trivial⟩
  obtain ⟨after, kept, -⟩ := SchedulerRuns.step_kept inv regular taken
  obtain ⟨rfl, -⟩ := PooledScheduler.step_construct taken
  have idle := (SchedulerObjects.next_spare inv).1
  change erase (State.setTask _ s.next fun task =>
    { task with uid := some given, status := .ready }) = _
  refine (erase_idle id (wired_of kept) idle ?_).trans (Machine.setJob_id _ _)
  dsimp only
  rw [Function.update_self]
  rfl

theorem giveBack_known (classes : Nat → Option TaskPool.ClassPool) (object : TaskPool.TaskObject)
    (cls : Nat) : (TaskPool.giveBack classes object cls).isSome = (classes cls).isSome := by
  unfold TaskPool.giveBack
  cases object.uniqueId with
  | none => rfl
  | some id =>
      by_cases here : cls = object.cls
      · subst here
        simp
      · simp [here]

theorem handedBack_known (p : Pooled) (label : Label) (s' : State) (cls : Nat) :
    (handedBack p label s' cls).isSome = (p.classes cls).isSome := by
  unfold handedBack
  split
  · exact giveBack_known _ _ cls
  · cases PooledScheduler.deleted p.sched s' with
    | none => rfl
    | some t => exact giveBack_known _ _ cls

theorem constructed {kind : Kind} {cls : Nat} {nest : Nest} (inv : Invariant p.sched nest)
    {pool : TaskPool.ClassPool} {built : State} (known : p.classes cls = some pool)
    (taken : Scheduler.step p.sched (.construct kind none) = some built) :
    ∃ p', PooledScheduler.step p (.construct kind cls) = some p' ∧
      erase p'.sched = erase built ∧
      ∀ other, (p'.classes other).isSome = (p.classes other).isSome := by
  cases popped : pool.pop with
  | none =>
      have steps : PooledScheduler.step p (.construct kind cls) = some { p with
          sched := built
          cls := Function.update p.cls p.sched.next cls } := by
        simp only [PooledScheduler.step, known, taken, popped]
      exact ⟨_, steps, rfl, fun _ => rfl⟩
  | some result =>
      obtain ⟨given, rest⟩ := result
      have steps : PooledScheduler.step p (.construct kind cls) = some { p with
          sched := takeId built p.sched.next given
          cls := Function.update p.cls p.sched.next cls
          classes := Function.update p.classes cls (some rest) } := by
        simp only [PooledScheduler.step, known, taken, popped]
      refine ⟨_, steps, erase_takeId inv taken given, fun other => ?_⟩
      by_cases here : other = cls
      · subst here
        simp [known]
      · simp [here]

theorem construct_step_refines {s : State} {nest : Nest} (inv : Invariant s nest) (kind : Kind) :
    (Scheduler.step s (.construct kind none)).map erase = (erase s).step (.construct kind none) :=
  step_refines inv ⟨trivial, trivial, trivial⟩ trivial (by simp [Plain])

theorem construct_twins (twins : Twins p q) {kind : Kind} {cls : Nat}
    (taken : PooledScheduler.step p (.construct kind cls) = some p') :
    ∃ q', PooledScheduler.step q (.construct kind cls) = some q' ∧ Twins p' q' := by
  obtain ⟨nest, inv⟩ := twins.first.nested
  obtain ⟨twin, invTwin⟩ := twins.second.nested
  have promised (run : Pooled) : PooledScheduler.Regular run (.construct kind cls) := trivial
  have first := PooledScheduler.step_accounted twins.first (promised p) taken
  cases known : p.classes cls with
  | none => simp [PooledScheduler.step, known] at taken
  | some pool =>
      cases moved : Scheduler.step p.sched (.construct kind none) with
      | none => simp [PooledScheduler.step, known, moved] at taken
      | some built =>
          obtain ⟨next, steps, same, classes⟩ := constructed inv known moved
          rw [taken] at steps
          cases steps
          -- seen without ids, the two constructors build the same task
          have refined := construct_step_refines inv kind
          have refinedTwin := construct_step_refines invTwin kind
          rw [moved, twins.same, ← refinedTwin] at refined
          obtain ⟨builtTwin, movedTwin, after⟩ := Option.map_eq_some_iff.mp refined.symm
          have there : (q.classes cls).isSome = true := by
            rw [← twins.known, known]
            rfl
          obtain ⟨poolTwin, knownTwin⟩ := Option.isSome_iff_exists.mp there
          obtain ⟨q', stepsTwin, sameTwin, classesTwin⟩ := constructed invTwin knownTwin movedTwin
          have second := PooledScheduler.step_accounted twins.second (promised q) stepsTwin
          refine ⟨q', stepsTwin, first, second, by rw [same, sameTwin, after], fun other => ?_⟩
          rw [classes, classesTwin, twins.known]

theorem step_label {label : Label} (objects : ∀ kind uid, label ≠ .construct kind uid)
    (p : Pooled) : PooledScheduler.step p (.act label) =
      (Scheduler.step p.sched label).map fun next =>
        { p with sched := next, classes := handedBack p label next } := by
  cases label with
  | construct kind uid => exact absurd rfl (objects kind uid)
  | _ => rfl

theorem act_twins (twins : Twins p q) {label : Label}
    (regular : PooledScheduler.Regular p (.act label)) (fed : Fed p (.act label))
    (fedTwin : Fed q (.act label)) (taken : PooledScheduler.step p (.act label) = some p') :
    ∃ q', PooledScheduler.step q (.act label) = some q' ∧ Twins p' q' ∧
      acts q.sched label q'.sched = acts p.sched label p'.sched := by
  obtain ⟨nest, inv⟩ := twins.first.nested
  obtain ⟨twin, invTwin⟩ := twins.second.nested
  -- the promise concerns the threads, which are the same in both runs
  have both : PooledScheduler.Regular q (.act label) :=
    regular_same inv invTwin twins.same fedTwin regular
  have first := PooledScheduler.step_accounted twins.first regular taken
  obtain ⟨objects, s', moved, rfl⟩ := PooledScheduler.step_act taken
  have plain : Plain label := fun kind id => objects kind (some id)
  have refined := step_refines inv regular fed plain
  have refinedTwin := step_refines invTwin both fedTwin plain
  rw [moved, twins.same, ← refinedTwin] at refined
  obtain ⟨r', movedTwin, after⟩ := Option.map_eq_some_iff.mp refined.symm
  have takenTwin : PooledScheduler.step q (.act label) =
      some { q with sched := r', classes := handedBack q label r' } := by
    rw [step_label objects, movedTwin]
    rfl
  have second := PooledScheduler.step_accounted twins.second both takenTwin
  refine ⟨_, takenTwin, ⟨first, second, after.symm, fun cls => ?_⟩, ?_⟩
  · rw [handedBack_known, handedBack_known, twins.known]
  · obtain ⟨next, invNext⟩ := first.nested
    obtain ⟨nextTwin, invNextTwin⟩ := second.nested
    exact acts_same (wired_of inv) (wired_of invTwin) (wired_of invNext) (wired_of invNextTwin)
      twins.same after.symm

theorem init_twins (twins : Twins p q) {cls one two : Nat} (positive : two ≠ 0)
    (taken : PooledScheduler.step p (.init cls one) = some p') :
    ∃ q', PooledScheduler.step q (.init cls two) = some q' ∧ Twins p' q' := by
  have promised (run : Pooled) (number : Nat) :
      PooledScheduler.Regular run (.init cls number) := trivial
  have first := PooledScheduler.step_accounted twins.first (promised p one) taken
  have bound : p.sched.next = q.sched.next := congrArg Machine.next twins.same
  simp only [PooledScheduler.step] at taken
  split at taken
  · cases taken
  · rename_i allowed
    push Not at allowed
    obtain ⟨unused, unset, -⟩ := allowed
    cases taken
    have steps : PooledScheduler.step q (.init cls two) = some { q with
        classes := Function.update q.classes cls
          (some (TaskPool.ClassPool.initSetting q.counter two))
        counter := q.counter + two } := by
      -- what `init` asks of the class is the same in both runs
      rw [bound] at unused
      rw [twins.known] at unset
      simp only [PooledScheduler.step, unused, unset, positive]
      simp
    have second := PooledScheduler.step_accounted twins.second (promised q two) steps
    refine ⟨_, steps, first, second, twins.same, fun other => ?_⟩
    by_cases here : other = cls
    · subst here
      simp
    · simp [here, twins.known]

/-- The step lemma: a move of one run is the same move of the other, and shows the same. -/
theorem step_twins (twins : Twins p q) (positive : ∀ cls, 0 < other cls)
    (regular : PooledScheduler.Regular p (sized size move)) (fed : Fed p (sized size move))
    (fedTwin : Fed q (sized other move))
    (taken : PooledScheduler.step p (sized size move) = some p') :
    ∃ q', PooledScheduler.step q (sized other move) = some q' ∧ Twins p' q' ∧
      shows q (sized other move) = shows p (sized size move) := by
  cases move with
  | init cls number =>
      obtain ⟨q', steps, after⟩ := init_twins twins (Nat.ne_of_gt (positive cls)) taken
      exact ⟨q', steps, after, rfl⟩
  | construct kind cls =>
      obtain ⟨q', steps, after⟩ := construct_twins twins taken
      exact ⟨q', steps, after, rfl⟩
  | act label =>
      obtain ⟨q', steps, after, same⟩ := act_twins twins regular fed fedTwin taken
      refine ⟨q', steps, after, ?_⟩
      simp only [sized] at taken ⊢
      simp only [shows, steps, taken]
      exact same
  | userThrow => cases regular

end Twins

section Runs

variable {p : Pooled} {size other : Nat → Nat} {moves : List Move}

theorem initial_twins : Twins {} {} where
  first := PooledScheduler.initial_accounted
  second := PooledScheduler.initial_accounted
  same := rfl
  known _ := rfl

theorem control_flow_independent (positive : ∀ cls, 0 < other cls)
    (regular : Along PooledScheduler.step PooledScheduler.Regular {} (moves.map (sized size)))
    (fed : Along PooledScheduler.step Fed {} (moves.map (sized size)))
    (fedTwin : Along PooledScheduler.step Fed {} (moves.map (sized other)))
    (run : replay PooledScheduler.step {} (moves.map (sized size)) = some p) :
    ∃ q, replay PooledScheduler.step {} (moves.map (sized other)) = some q ∧
      observed PooledScheduler.step shows {} (moves.map (sized other)) =
        observed PooledScheduler.step shows {} (moves.map (sized size)) ∧
      ∀ t, SameStatus (p.sched.tasks t).status (q.sched.tasks t).status := by
  obtain ⟨q, ends, twins, shown⟩ := replay_lockstep (sized size) (sized other) Twins
    (fun state twin move next twins admitted fedTwin taken =>
      step_twins twins positive admitted.1 admitted.2 fedTwin taken)
    initial_twins (along_both regular fed) fedTwin run
  exact ⟨q, ends, shown, sameStatus_of twins.same⟩

/-- The top task starts a sleep and awaits another, which finds an id only in the larger pool.
Both end, and the top task starts a third task. -/
def onlyAwaited : List Move :=
  [.init 0 2, .construct .user 0, .construct .event 0, .act (.cocoflow 0), .act .tau,
    .construct .event 0, .act (.start 1), .act .block, .act .tau, .act (.await 2), .act .block,
    .act (.event 1), .act .tau, .act .tau, .act (.event 2), .act .tau, .act .tau,
    .construct .user 0, .act (.start 3)]

theorem control_flow_independent_two_three : ∃ p q,
    replay PooledScheduler.step {} (onlyAwaited.map (sized fun _ => 2)) = some p ∧
      replay PooledScheduler.step {} (onlyAwaited.map (sized fun _ => 3)) = some q ∧
      observed PooledScheduler.step shows {} (onlyAwaited.map (sized fun _ => 3)) =
        observed PooledScheduler.step shows {} (onlyAwaited.map (sized fun _ => 2)) ∧
      ∀ t, SameStatus (p.sched.tasks t).status (q.sched.tasks t).status := by
  have reached : (replay PooledScheduler.step {}
      (onlyAwaited.map (sized fun _ => 2))).isSome := by decide +kernel
  have regular : Along PooledScheduler.step PooledScheduler.Regular {}
      (onlyAwaited.map (sized fun _ => 2)) := by decide +kernel
  have fed : Along PooledScheduler.step Fed {} (onlyAwaited.map (sized fun _ => 2)) := by
    decide +kernel
  have fedTwin : Along PooledScheduler.step Fed {} (onlyAwaited.map (sized fun _ => 3)) := by
    decide +kernel
  obtain ⟨q, ends, same, statuses⟩ := control_flow_independent (fun _ => Nat.succ_pos 2)
    regular fed fedTwin (Option.some_get reached).symm
  exact ⟨_, q, (Option.some_get reached).symm, ends, same, statuses⟩

/-- The top task starts a sleep and awaits it while it sleeps. The answer is `-1`, and the id
of the sleep is on the free list. A second task is awaited, which puts its id in front of that
one if it has an id. A third task takes the first free id and is started. -/
def refusedAwait : List Move :=
  [.init 0 2, .construct .user 0, .construct .event 0, .act (.cocoflow 0), .act .tau,
    .construct .user 0, .act (.start 1), .act .block, .act .tau, .act (.await 1),
    .act (.await 2), .act .tau, .act .ret, .act .tau, .construct .user 0, .act (.start 3)]

/-- With two ids the third task starts on the coroutine of the sleep, which goes on. -/
theorem control_flow_dependent : ¬∀ (size other : Nat → Nat) (moves : List Move) (p : Pooled),
    (∀ cls, 0 < other cls) → Along PooledScheduler.step Fed {} (moves.map (sized size)) →
    Along PooledScheduler.step Fed {} (moves.map (sized other)) →
    replay PooledScheduler.step {} (moves.map (sized size)) = some p →
    ∃ q, replay PooledScheduler.step {} (moves.map (sized other)) = some q ∧
      observed PooledScheduler.step shows {} (moves.map (sized other)) =
        observed PooledScheduler.step shows {} (moves.map (sized size)) ∧
      ∀ t, SameStatus (p.sched.tasks t).status (q.sched.tasks t).status := by
  intro claimed
  have reached : (replay PooledScheduler.step {}
      (refusedAwait.map (sized fun _ => 2))).isSome := by decide +kernel
  have fed : Along PooledScheduler.step Fed {} (refusedAwait.map (sized fun _ => 2)) := by
    decide +kernel
  have fedTwin : Along PooledScheduler.step Fed {} (refusedAwait.map (sized fun _ => 3)) := by
    decide +kernel
  obtain ⟨-, -, same, -⟩ := claimed (fun _ => 2) (fun _ => 3) refusedAwait _
    (fun _ => Nat.succ_pos 2) fed fedTwin (Option.some_get reached).symm
  have goesOn : observed PooledScheduler.step shows {} (refusedAwait.map (sized fun _ => 2)) =
      [.run 0, .run 1, .resume 0, .refuse 1, .run 2, .complete 2, .resume 1] := by decide +kernel
  have begins : observed PooledScheduler.step shows {} (refusedAwait.map (sized fun _ => 3)) =
      [.run 0, .run 1, .resume 0, .refuse 1, .run 2, .complete 2, .run 3] := by decide +kernel
  rw [goesOn, begins] at same
  revert same
  decide

end Runs

end Cocoflow.PoolIndependence
