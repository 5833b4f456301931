import Mathlib.Logic.Function.Basic
import Mathlib.Data.List.Basic
import Cocoflow.PointUpdates
import Cocoflow.SchedulerRuns
import Cocoflow.ThreadErasure

/-!
The scheduler refines the scheduler without ids. Each function of `Scheduler`, seen through
`erase`, is the function of the same name on threads, in every state in which control is
properly nested.
-/

namespace Cocoflow.ThreadRefinement

open Scheduler SchedulerNest SchedulerLocal SchedulerCalls SchedulerSwitch ThreadScheduler
open ThreadErasure

section Tools

variable {s s' : State} {k l t u : Nat} {context other : Context}

theorem owner (wired : Wired s) (found : s.contexts k = some context) :
    (s.tasks context.inner).uid = some k :=
  wired.owned k context found _ (inner_mem context)

theorem thread_ids (contexts : s'.contexts = s.contexts)
    (ids : ∀ t, (s'.tasks t).uid = (s.tasks t).uid ∧ (s'.tasks t).blockTo = (s.tasks t).blockTo ∧
      (s'.tasks t).finishTo = (s.tasks t).finishTo) (context : Context) :
    thread s' context = thread s context := by
  unfold thread name
  simp only [contexts, (ids _).2.1, (ids _).2.2]

theorem thread_setTask {write : Task → Task} (keeps : KeepsIds write) (context : Context) :
    thread (s.setTask t write) context = thread s context := by
  have contexts : (s.setTask t write).contexts = s.contexts := rfl
  exact thread_ids contexts (setTask_ids keeps) context

theorem block_none (wired : Wired s) (found : s.contexts k = some context) :
    (thread s context).blockTo = none ↔ (s.tasks context.inner).blockTo = none :=
  name_eq_none fun q block => (wired.blockTo k context q found block).2

theorem finish_none (wired : Wired s) (found : s.contexts k = some context) :
    (thread s context).finishTo = none ↔ (s.tasks context.base).finishTo = none :=
  name_eq_none fun q finish => (wired.finishTo k context q found finish).2

end Tools

section Ends

variable {s : State} {k : Nat} {context : Context} {target : Option Nat}

theorem ended_refines (manager : Nat → Option Nat) (live : Nat → Bool) (wired : Wired s)
    (running : s.exec = some k) (found : s.contexts k = some context)
    (others : ∀ l, l ≠ k → manager l = s.manager l)
    (used : ∀ q, target = some q → q ≠ k ∧ s.contexts q ≠ none)
    (after : ∀ s', swapRunning { s with
      contexts := Function.update s.contexts k none
      manager := manager
      live := live } (some k) target = some s' → Wired s') :
    (swapRunning { s with
      contexts := Function.update s.contexts k none
      manager := manager
      live := live } (some k) target).map erase =
      Machine.switchTo { erase s with
        threads := Function.update (threads s) context.base none
        live := live } (name s target) := by
  have back (q : Nat) (going : target = some q) : ∃ lower,
      Function.update s.contexts k none q = some lower ∧ s.contexts q = some lower ∧
        lower.base ≠ context.base := by
    obtain ⟨apart, there⟩ := used q going
    cases place : s.contexts q with
    | none => exact absurd place there
    | some lower =>
        exact ⟨lower, by rw [Function.update_of_ne apart, place], rfl,
          stranger wired found place apart (base_mem context) (base_mem lower)⟩
  have switch := swapRunning_back (s := { s with
      contexts := Function.update s.contexts k none
      manager := manager
      live := live }) running.symm fun q going => (back q going).imp fun _ both => both.1
  rw [switch] at after ⊢
  have threads := threads_ended wired (after _ rfl) found rfl rfl
  cases target with
  | none => exact congrArg some (Machine.ext rfl rfl rfl threads rfl rfl rfl rfl rfl rfl rfl)
  | some q =>
      obtain ⟨lower, left, place, apart⟩ := back q rfl
      have there : (Function.update (ThreadErasure.threads s) context.base none lower.base).isSome
          = true := by
        rw [Function.update_of_ne apart,
          threads_base (wired.owned q lower place _ (base_mem lower)) place]
        rfl
      rw [name_found place, Machine.switchTo_some there]
      refine congrArg some (Machine.ext rfl rfl rfl threads ?_ ?_ rfl rfl rfl rfl rfl)
      · exact name_found left
      · exact (others q (used q rfl).1).trans (wired.manager q lower place)

theorem finish_refines (wired : Wired s) (running : s.exec = some k)
    (found : s.contexts k = some context) (alone : context.awaits = [])
    (after : ∀ s', runtimeFinish s k context = some s' → Wired s') :
    (runtimeFinish s k context).map erase = (erase s).finish (thread s context) := by
  have base : context.inner = context.base := by
    unfold Context.inner
    rw [alone]
  have blocks := block_none wired found
  have finishes := finish_none wired found
  rw [base] at blocks
  -- whichever of the two ids it is, its coroutine is in use
  have used (q : Nat) (going : (if (s.tasks context.base).finishTo ≠ none ∨
      (s.tasks context.base).blockTo = none then (s.tasks context.base).finishTo
      else (s.tasks context.base).blockTo) = some q) : q ≠ k ∧ s.contexts q ≠ none := by
    split at going
    · exact wired.finishTo k context q found going
    · exact wired.blockTo k context q found (base ▸ going)
  have next : (if (thread s context).finishTo ≠ none ∨ (thread s context).blockTo = none then
      (thread s context).finishTo else (thread s context).blockTo) =
      name s (if (s.tasks context.base).finishTo ≠ none ∨ (s.tasks context.base).blockTo = none
        then (s.tasks context.base).finishTo else (s.tasks context.base).blockTo) := by
    simp only [ne_eq, blocks, finishes]
    split
    · rfl
    · unfold thread
      rw [base]
  unfold runtimeFinish at after ⊢
  unfold Machine.finish
  simp only [finishes]
  rw [next]
  change _ = if _ ∧ s.top ≠ some context.base then _ else _
  by_cases deleted : (s.tasks context.base).finishTo = none ∧ s.top ≠ some context.base
  · refine Eq.trans ?_ (if_pos deleted).symm
    simp only [if_pos deleted] at after ⊢
    exact ended_refines _ _ wired running found
      (fun l apart => Function.update_of_ne apart _ _) used after
  · refine Eq.trans ?_ (if_neg deleted).symm
    simp only [if_neg deleted] at after ⊢
    exact ended_refines s.manager s.live wired running found (fun _ _ => rfl) used after

end Ends

section Calls

variable {s : State} {k : Nat} {context : Context}

theorem yield_refines (wired : Wired s) (running : s.exec = some k)
    (found : s.contexts k = some context) (at_ : YieldAt) :
    (taskYield s k context at_).map erase = (erase s).yield (thread s context) at_ := by
  have untied : Wired (s.setTask context.inner fun task => { task with blockTo := none }) :=
    wired_untied wired rfl (fun q block => by cases block) fun _ => id
  have place : (s.setTask context.inner fun task => { task with blockTo := none }).contexts k =
    some context := found
  have moved := wired_moveTo untied place (.yielded at_)
  have same : thread (s.setTask context.inner fun task => { task with blockTo := none }) context =
      { thread s context with blockTo := none } := by
    unfold thread
    rw [setTask_self, setTask_field Task.finishTo rfl]
    rfl
  unfold taskYield Machine.yield
  -- the id was read before it was cleared
  refine (erase_stays moved (by rw [owner wired found]; exact running.symm)
    fun q block => ?_).trans ?_
  · obtain ⟨apart, there⟩ := wired.blockTo k context q found block
    change Function.update s.contexts k _ q ≠ none
    rw [Function.update_of_ne apart]
    exact there
  · rw [name_moveTo place, erase_moveTo untied place,
      erase_tied id wired found (inner_mem context) (fun _ => rfl) rfl, Machine.setJob_id]
    unfold Machine.moveTo
    rw [Machine.setThread_setThread _ (by rfl), same]
    rfl

theorem jobs_update (tasks : Nat → Task) (t : Nat) (task : Task) :
    (fun other => job (Function.update tasks t task other)) =
      Function.update (fun other => job (tasks other)) t (job task) :=
  funext fun other => Function.apply_update (fun _ => job) tasks t task other

theorem calls_refines (wired : Wired s) (found : s.contexts k = some context) {target : Nat}
    (idle : Idle s target) (current : s.current = some context.inner)
    (live : s.live target = true) (new : (job (s.tasks target)).status = .ready) :
    some (erase (calls s k context target)) = (erase s).await (thread s context) target := by
  have apart {t : Nat} (member : t ∈ context.chain) : t ≠ target := by
    rintro rfl
    exact idle k context found member
  have jobs : (erase (calls s k context target)).jobs =
      Function.update (Function.update (erase s).jobs target
        { job (s.tasks target) with status := .running }) context.inner
        { job (s.tasks context.inner) with reuse := some target } := by
    refine (jobs_update _ _ _).trans ?_
    rw [jobs_update]
    rfl
  have threads := threads_change wired found (by rfl)
    (show (calls s k context target).contexts = Function.update s.contexts k
      (some (called context target)) from rfl) (fun t => ?_) ?_
  · have live' : ¬(erase s).live target = false := by
      change ¬s.live target = false
      simp [live]
    have names := name_moved found (by rfl)
      (show (calls s k context target).contexts = Function.update s.contexts k
        (some (called context target)) from rfl)
    -- the caller may itself be the base
    have finish : ((calls s k context target).tasks context.base).finishTo =
        (s.tasks context.base).finishTo := by
      by_cases here : context.base = context.inner
      · rw [here, calls_inner]
      · rw [calls_other (apart (base_mem context)) here]
    have place : (⟨called context target,
        name s ((calls s k context target).tasks (called context target).inner).blockTo,
        name s ((calls s k context target).tasks (called context target).base).finishTo⟩ :
          Thread) = { thread s context with context := called context target } := by
      have block := calls_target (s := s) (k := k) (apart (inner_mem context))
      have inner : (called context target).inner = target := rfl
      have bottom : (called context target).base = context.base := rfl
      rw [inner, bottom, block, finish]
      rfl
    rw [place] at threads
    have shown : (erase s).current = some context.inner := current
    unfold Machine.await
    rw [if_neg live', shown]
    refine Eq.trans ?_ (if_neg (not_not_intro new)).symm
    refine congrArg some (Machine.ext ?_ rfl rfl threads (names _) rfl rfl rfl rfl rfl rfl)
    have same : ((erase s).setStatus target .running).jobs context.inner =
        job (s.tasks context.inner) := Function.update_of_ne (apart (inner_mem context)) _ _
    rw [jobs, ← same]
    rfl
  · by_cases here : t = context.inner
    · exact Or.inr (Or.inl (here ▸ inner_mem context))
    · by_cases there : t = target
      · exact Or.inr (Or.inr (there ▸ idle))
      · exact Or.inl (calls_other there here)
  · by_cases here : context.base = context.inner
    · rw [here, calls_inner]
    · rw [calls_other (apart (base_mem context)) here]

theorem await_refines (wired : Wired s) (found : s.contexts k = some context) {target : Nat}
    (idle : Idle s target)
    (caller : (s.tasks target).status = .ready ∨ (s.tasks target).status = .limited →
      s.current = some context.inner) :
    (Scheduler.await s k context target).map erase = (erase s).await (thread s context) target := by
  cases live : s.live target with
  | false =>
      have dead : (erase s).live target = false := live
      simp [Scheduler.await, Machine.await, live, dead]
  | true =>
      have apart : context.inner ≠ target := by
        rintro rfl
        exact idle k context found (inner_mem context)
      by_cases new : (s.tasks target).status = .ready ∨ (s.tasks target).status = .limited
      · rw [await_accepts (caller new) apart live new]
        exact calls_refines wired found idle (caller new) live (job_new.mpr new)
      · -- the refused target has lost its id, which no thread had
        have given : erase (s.setTask target fun task => { task with uid := none }) = erase s := by
          rw [erase_idle id wired idle rfl, Machine.setJob_id]
        have old : ((erase s).jobs target).status ≠ .ready := fun ready => new (job_new.mp ready)
        have alive : (erase s).live target = true := live
        have shown : (erase s).current = s.current := rfl
        simp only [Scheduler.await, Machine.await, live, alive, shown]
        cases s.current with
        | none => rfl
        | some parent =>
            refine Eq.trans ?_ (if_pos old).symm
            exact (congrArg (Option.map erase) (if_pos (not_or.mp new))).trans (congrArg some given)

theorem popped_wired (wired : Wired s) (found : s.contexts k = some context) {frame : Frame}
    {outer : List Frame} (awaits : context.awaits = frame :: outer) :
    context.inner = frame.target ∧ frame.parent ≠ frame.target ∧ context.base ≠ frame.target ∧
      frame.parent ∈ context.chain.tail ∧
      ∀ point, Context.inner { context with awaits := outer, point := point } = frame.parent := by
  have parents := wired.parents k context found
  have nodup := wired.nodup k context found
  obtain ⟨inner, chain⟩ := popped_chain .user awaits
  rw [chain, awaits] at parents
  rw [chain] at nodup
  have callers : frame.parent :: outer.map Frame.parent =
      ({ context with awaits := outer, point := .user } : Context).chain := parents
  have absent := (List.nodup_cons.mp nodup).1
  have caller := chain_cons ({ context with awaits := outer, point := .user } : Context)
  rw [← callers] at caller absent
  refine ⟨inner, ?_, ?_, ?_, fun point => (List.cons.inj caller).1.symm⟩
  · rintro same
    exact absent (by rw [← same]; exact List.mem_cons_self)
  · rintro same
    have bottom := base_mem ({ context with awaits := outer, point := .user } : Context)
    rw [← callers] at bottom
    exact absent (same ▸ bottom)
  · rw [chain, List.tail_cons, ← callers]
    exact List.mem_cons_self

def popped (s : State) (k : Nat) (context : Context) (frame : Frame) (outer : List Frame)
    (point : Point) (target parent : Task) (done : List Nat) : State :=
  { s with
    tasks := Function.update (Function.update s.tasks frame.target target) frame.parent parent
    done := done
    current := some frame.parent
    contexts := Function.update s.contexts k
      (some { context with awaits := outer, point := point }) }

theorem popped_refines (wired : Wired s) (found : s.contexts k = some context) {frame : Frame}
    {outer : List Frame} (awaits : context.awaits = frame :: outer) (point : Point)
    (target parent : Task) (done : List Nat)
    (uid : parent.uid = (s.tasks frame.parent).uid)
    (finish : parent.finishTo = (s.tasks frame.parent).finishTo) :
    erase (popped s k context frame outer point target parent done) =
    { (erase s).setThread ⟨{ context with awaits := outer, point := point },
        name s parent.blockTo, (thread s context).finishTo⟩ with
      jobs := Function.update (Function.update (erase s).jobs frame.target (job target))
        frame.parent (job parent)
      done := done
      current := some frame.parent } := by
  obtain ⟨inner, apart, bottom, caller, first⟩ := popped_wired wired found awaits
  have contexts : (popped s k context frame outer point target parent done).contexts =
    Function.update s.contexts k (some { context with awaits := outer, point := point }) := rfl
  have self : (popped s k context frame outer point target parent done).tasks frame.parent =
    parent := Function.update_self ..
  have kept {α : Type} (field : Task → α) (same : field parent = field (s.tasks frame.parent)) :
      field ((popped s k context frame outer point target parent done).tasks context.base) =
        field (s.tasks context.base) := by
    by_cases here : context.base = frame.parent
    · rw [here, self, same]
    · have other := Function.update_of_ne here parent
        (Function.update s.tasks frame.target target)
      exact congrArg field (other.trans (Function.update_of_ne bottom _ _))
  have threads := threads_change wired found (by rfl) contexts (fun t => ?_) (kept Task.uid uid)
  · refine Machine.ext ?_ rfl rfl (threads.trans ?_) (name_moved found (by rfl) contexts _) rfl rfl
      rfl rfl rfl rfl
    · refine (jobs_update _ _ _).trans ?_
      rw [jobs_update]
      rfl
    · rw [first point, self]
      have last := kept Task.finishTo finish
      dsimp only
      rw [last]
      rfl
  · by_cases here : t = frame.parent
    · exact Or.inr (Or.inl (here ▸ List.mem_of_mem_tail caller))
    · by_cases there : t = frame.target
      · exact Or.inr (Or.inl (there ▸ inner ▸ inner_mem context))
      · exact Or.inl ((Function.update_of_ne here _ _).trans (Function.update_of_ne there _ _))

theorem awaitReturn_refines (wired : Wired s) (found : s.contexts k = some context)
    {frame : Frame} {outer : List Frame} (awaits : context.awaits = frame :: outer) :
    erase (Scheduler.awaitReturn s k context frame outer) =
      (erase s).awaitReturn (thread s context) frame outer := by
  obtain ⟨inner, apart, bottom, caller, first⟩ := popped_wired wired found awaits
  have untied := wired.untied k context found _ caller
  have passes : (if (s.tasks frame.target).blockTo ≠ none then (s.tasks frame.target).blockTo
      else (s.tasks frame.parent).blockTo) = (s.tasks context.inner).blockTo := by
    rw [untied, inner]
    cases (s.tasks frame.target).blockTo <;> rfl
  have canceled : ((erase s).jobs frame.target).status = .canceled ↔
      (s.tasks frame.target).status = .canceled := job_status (by decide) (by decide)
  have running : ((erase s).jobs frame.target).status = .running ↔
      (s.tasks frame.target).status = .running := job_status (by decide) (by decide)
  have other (m : Machine) (status : Status) :
      (m.setStatus frame.target status).jobs frame.parent = m.jobs frame.parent :=
    Function.update_of_ne apart _ _
  rw [awaitReturn_spec s k context outer apart, passes]
  refine (popped_refines wired found awaits _ _ _ _ (by rfl) (by rfl)).trans ?_
  unfold Machine.awaitReturn
  simp only [canceled, running]
  by_cases ended : (s.tasks frame.target).status = .running ∨
    (s.tasks frame.target).status = .canceled
  · simp only [if_pos ended]
    refine Machine.ext ?_ rfl rfl rfl rfl rfl rfl rfl rfl rfl rfl
    change _ = Function.update ((erase s).setStatus frame.target .completed).jobs frame.parent
      { ((erase s).setStatus frame.target .completed).jobs frame.parent with reuse := none }
    rw [other]
    rfl
  · simp only [if_neg ended]
    refine Machine.ext ?_ rfl rfl rfl rfl rfl rfl rfl rfl rfl rfl
    exact congrArg (fun jobs => Function.update jobs frame.parent _) (Function.update_eq_self ..)

theorem awaitRethrow_refines (wired : Wired s) (found : s.contexts k = some context)
    {frame : Frame} {outer : List Frame} (awaits : context.awaits = frame :: outer) :
    erase (Scheduler.awaitRethrow s k context frame outer) =
      (erase s).awaitRethrow (thread s context) frame outer := by
  obtain ⟨inner, apart, bottom, caller, first⟩ := popped_wired wired found awaits
  have untied := wired.untied k context found _ caller
  have spec : Scheduler.awaitRethrow s k context frame outer =
      popped s k context frame outer .throwing { s.tasks frame.target with uid := none }
        { s.tasks frame.parent with reuse := none } s.done := by
    simp [popped, Scheduler.awaitRethrow, State.setTask, State.setContext, apart.symm,
      Function.update_comm apart]
  rw [spec]
  refine (popped_refines wired found awaits _ _ _ _ (by rfl) (by rfl)).trans ?_
  unfold Machine.awaitRethrow
  refine Machine.ext ?_ rfl rfl ?_ rfl rfl rfl rfl rfl rfl rfl
  · exact congrArg (fun jobs => Function.update jobs frame.parent _) (Function.update_eq_self ..)
  · dsimp only
    rw [untied]
    rfl

theorem spawn_refines (wired : Wired s) (running : s.exec = some k)
    (found : s.contexts k = some context) {target j : Nat} (live : s.live target = true)
    (uid : (s.tasks target).uid = some j) (managed : s.manager j = some target)
    (free : s.contexts j = none)
    (block : ∀ q, (s.tasks target).blockTo = some q → s.contexts q ≠ none)
    (finish : ∀ q, (s.tasks target).finishTo = some q → s.contexts q ≠ none) (point : Point) :
    (swapRunning (s.moveTo k context point) (some k) (some j)).map erase =
      ((erase s).moveTo (thread s context) point).launch target
        (name s (s.tasks target).blockTo) (name s (s.tasks target).finishTo) := by
  have apart : j ≠ k := by
    rintro rfl
    rw [found] at free
    cases free
  have used (q : Nat) (there : s.contexts q ≠ none) :
      (s.moveTo k context point).contexts q ≠ none := by
    change Function.update s.contexts k _ q ≠ none
    by_cases here : q = k
    · rw [here, Function.update_self]
      simp
    · rw [Function.update_of_ne here]
      exact there
  rw [← erase_moveTo wired found, ← name_moveTo found point, ← name_moveTo found point]
  exact erase_launch (wired_moveTo wired found point) running.symm
    ((Function.update_of_ne apart _ _).trans free) managed live uid
    (fun q blocks => used q (block q blocks)) fun q finishes => used q (finish q finishes)

theorem thread_idle (found : s.contexts k = some context) {t : Nat} (idle : Idle s t)
    (write : Task → Task) : thread (s.setTask t write) context = thread s context := by
  have apart {u : Nat} (member : u ∈ context.chain) : u ≠ t := by
    rintro rfl
    exact idle k context found member
  refine thread_congr ?_ ?_ rfl rfl
  · rw [setTask_other _ _ _ (apart (inner_mem context))]
  · rw [setTask_other _ _ _ (apart (base_mem context))]

theorem start_refines (wired : Wired s) (running : s.exec = some k)
    (found : s.contexts k = some context) {target parent : Nat}
    (current : s.current = some parent) (member : parent ∈ context.chain) (idle : Idle s target)
    (given : (s.tasks target).status ≠ .limited)
    (fresh : s.live target = true → (s.tasks target).status = .ready →
      ∃ j, (s.tasks target).uid = some j ∧ s.manager j = some target ∧ s.contexts j = none) :
    (Scheduler.start s k context target).map erase = (erase s).start (thread s context) target := by
  have own := wired.owned k context found parent member
  have shown : (erase s).current = some parent := current
  cases live : s.live target with
  | false =>
      have dead : (erase s).live target = false := live
      simp [Scheduler.start, Machine.start, live, dead]
  | true =>
      have alive : (erase s).live target = true := live
      have status : ((erase s).jobs target).status = .ready ↔ (s.tasks target).status = .ready :=
        job_ready given
      by_cases ready : (s.tasks target).status = .ready
      · obtain ⟨j, uid, managed, free⟩ := fresh live ready
        have accepted : Scheduler.start s k context target =
            swapRunning ((s.setTask target fun task =>
              { task with blockTo := some k, finishTo := none }).moveTo k context (.inStart target))
              (some k) (some j) := by
          simp [Scheduler.start, live, current, ready, own, uid]
        have begins : (erase s).start (thread s context) target =
            ((erase s).moveTo (thread s context) (.inStart target)).launch target
              (some context.base) none := by
          simp [Machine.start, alive, shown, status, ready, thread]
        -- the target is on no stack, so its new ids cannot be seen
        have linked := wired_idle wired idle
          fun task => { task with blockTo := some k, finishTo := none }
        have same : erase (s.setTask target fun task =>
            { task with blockTo := some k, finishTo := none }) = erase s := by
          rw [erase_idle id wired idle rfl, Machine.setJob_id]
        have there : s.contexts k ≠ none := by simp [found]
        have spawned := spawn_refines linked running found live (by rw [setTask_self]; exact uid)
          managed free (fun q block => by rw [setTask_self] at block; cases block; exact there)
          (fun q finish => by rw [setTask_self] at finish; cases finish) (.inStart target)
        have named : name (s.setTask target fun task =>
            { task with blockTo := some k, finishTo := none }) (some k) = some context.base :=
          name_found found
        rw [accepted, begins, spawned, same, thread_idle found idle, setTask_self, named]
        rfl
      · simp [Scheduler.start, Machine.start, live, alive, current, shown, status, ready]
        rfl

end Calls

section Cancellation

variable {s : State} {k : Nat} {context : Context}

theorem protector_refines (fuel final : Nat) :
    Scheduler.protector s fuel final = (erase s).protector fuel final := by
  induction fuel generalizing final with
  | zero => rfl
  | succ fuel ih =>
      unfold Scheduler.protector Machine.protector
      change (if (s.tasks final).uninterruptable = true then _ else _) =
        if (s.tasks final).uninterruptable = true then _ else _
      split
      · rfl
      · have reuses : ((erase s).jobs final).reuse = (s.tasks final).reuse := rfl
        rw [reuses]
        cases (s.tasks final).reuse with
        | none => rfl
        | some inner => exact ih inner

theorem cancelReturn_refines (wired : Wired s) (running : s.exec = some k)
    (found : s.contexts k = some context) {caller : CancelCaller}
    (alone : caller = .runtime → context.awaits = [])
    (after : ∀ s', Scheduler.cancelReturn s k context caller = some s' → Wired s') :
    (Scheduler.cancelReturn s k context caller).map erase =
      (erase s).cancelReturn (thread s context) caller := by
  cases caller with
  | anyRun => exact congrArg some (erase_moveTo wired found _)
  | yield => exact congrArg some (erase_moveTo wired found _)
  | await =>
      have calls : (thread s context).context.awaits = context.awaits := rfl
      unfold Scheduler.cancelReturn Machine.cancelReturn
      simp only [calls]
      cases awaits : context.awaits with
      | nil => rfl
      | cons frame outer => exact congrArg some (awaitRethrow_refines wired found awaits)
  | runtime => exact finish_refines wired running found (alone rfl) after
  | cancelWait => rfl

theorem wired_marks (wired : Wired s) (armed : Nat → Bool) (signal : Bool) (done : List Nat) :
    Wired { s with armed := armed, signal := signal, done := done } :=
  wired_ids wired rfl rfl rfl fun _ => ⟨rfl, rfl, rfl⟩

theorem cancelTask_refines (wired : Wired s) (running : s.exec = some k)
    (found : s.contexts k = some context) {caller : CancelCaller}
    (alone : caller = .runtime → context.awaits = [])
    (after : ∀ s', Scheduler.cancelTask s k context caller = some s' → Wired s') :
    (Scheduler.cancelTask s k context caller).map erase =
      (erase s).cancelTask (thread s context) caller := by
  unfold Scheduler.cancelTask at after ⊢
  have kinds : ((erase s).jobs (thread s context).context.inner).kind =
      (s.tasks context.inner).kind := rfl
  unfold Machine.cancelTask
  rw [kinds]
  cases kind : (s.tasks context.inner).kind with
  | user =>
      simp only [kind] at after
      exact cancelReturn_refines wired running found alone after
  | event =>
      simp only [kind] at after
      have disarmed := wired_marks wired (Function.update s.armed context.inner false) s.signal
        s.done
      exact cancelReturn_refines disarmed running found alone after
  | group which children => exact congrArg some (erase_moveTo wired found _)

theorem runReturn_refines (wired : Wired s) (running : s.exec = some k)
    (found : s.contexts k = some context)
    (after : ∀ s', Scheduler.runReturn s k context = some s' → Wired s') :
    (Scheduler.runReturn s k context).map erase = (erase s).runReturn (thread s context) := by
  unfold Scheduler.runReturn at after ⊢
  have calls : (thread s context).context.awaits = context.awaits := rfl
  unfold Machine.runReturn
  rw [calls]
  cases awaits : context.awaits with
  | cons frame outer => exact congrArg some (awaitReturn_refines wired found awaits)
  | nil =>
      simp only [awaits] at after
      have status : ((erase s).jobs (thread s context).context.base).status = .running ↔
          (s.tasks context.base).status = .running := job_status (by decide) (by decide)
      have set : Wired (s.setStatus context.base .completed) :=
        wired_setTask wired (keeps_status .completed)
      have ended : Wired (s.complete context.base) :=
        wired_marks set s.armed s.signal (s.done ++ [context.base])
      have same : thread (s.complete context.base) context = thread s context :=
        thread_setTask (keeps_status .completed) context
      by_cases runs : (s.tasks context.base).status = .running
      · simp only [if_pos runs] at after ⊢
        refine Eq.trans ?_ (if_pos (status.mpr runs)).symm
        rw [finish_refines ended running found awaits after, erase_complete, same]
        rfl
      · simp only [if_neg runs] at after ⊢
        refine Eq.trans ?_ (if_neg fun same => runs (status.mp same)).symm
        exact finish_refines wired running found awaits after

theorem runThrow_refines (wired : Wired s) (running : s.exec = some k)
    (found : s.contexts k = some context)
    (after : ∀ s', Scheduler.runThrow s k context = some s' → Wired s') :
    (Scheduler.runThrow s k context).map erase = (erase s).runThrow (thread s context) := by
  have canceled : Wired (s.setStatus context.inner .canceled) :=
    wired_setTask wired (keeps_status .canceled)
  have alone : (if context.awaits = [] then CancelCaller.runtime else .await) = .runtime →
      context.awaits = [] := by
    split
    · exact fun _ => ‹_›
    · exact fun same => by cases same
  have same : thread (s.setStatus context.inner .canceled) context = thread s context :=
    thread_setTask (keeps_status .canceled) context
  rw [Scheduler.runThrow, cancelTask_refines canceled running found alone after,
    erase_setStatus (by decide), same]
  rfl

theorem written_refines (wired : Wired s) (found : s.contexts k = some context) {t : Nat}
    {write : Task → Task} (change : Job → Job) (keeps : KeepsIds write)
    (same : job (write (s.tasks t)) = change (job (s.tasks t))) (point : Point) :
    erase ((s.setTask t write).moveTo k context point) =
      ((erase s).setJob t change).moveTo (thread s context) point := by
  rw [erase_moveTo (wired_setTask wired keeps) found point, erase_setTask change keeps same,
    thread_setTask keeps]

theorem restated_refines (wired : Wired s) (found : s.contexts k = some context) (t : Nat)
    (status : Status) (given : status ≠ .limited) (point : Point) :
    erase ((s.setStatus t status).moveTo k context point) =
      ((erase s).setStatus t status).moveTo (thread s context) point :=
  written_refines wired found _ (keeps_status status) (job_setStatus given) point

theorem interrupted_refines (wired : Wired s) (running : s.exec = some k)
    (found : s.contexts k = some context)
    (after : ∀ s', (if (s.tasks context.inner).status ≠ .canceled then
        some (({ s with signal := false }.setStatus context.inner .canceled).moveTo k context
          .throwing)
      else Scheduler.cancelTask { s with signal := false } k context .yield) = some s' → Wired s') :
    Option.map erase (if (s.tasks context.inner).status ≠ .canceled then
        some (({ s with signal := false }.setStatus context.inner .canceled).moveTo k context
          .throwing)
      else Scheduler.cancelTask { s with signal := false } k context .yield) =
      if ((erase s).jobs context.inner).status ≠ .canceled then
        some (({ erase s with signal := false }.setStatus context.inner .canceled).moveTo
          (thread s context) .throwing)
      else Machine.cancelTask { erase s with signal := false } (thread s context) .yield := by
  have status : ((erase s).jobs context.inner).status = .canceled ↔
      (s.tasks context.inner).status = .canceled := job_status (by decide) (by decide)
  have consumed := wired_marks wired s.armed false s.done
  by_cases canceled : (s.tasks context.inner).status = .canceled
  · simp only [canceled, status.mpr canceled, ne_eq, not_true_eq_false, if_false] at after ⊢
    exact cancelTask_refines consumed running found (fun same => by cases same) after
  · simp only [canceled, status, ne_eq, not_false_eq_true, if_true]
    exact congrArg some
      (restated_refines consumed found context.inner .canceled (by decide) .throwing)

theorem yieldReturn_refines (wired : Wired s) (running : s.exec = some k)
    (found : s.contexts k = some context) {at_ : YieldAt}
    (inside : s.signal = true → ∀ unsupport caller, at_ ≠ .cancelWait unsupport caller)
    (after : ∀ s', Scheduler.yieldReturn s k context at_ = some s' → Wired s') :
    (Scheduler.yieldReturn s k context at_).map erase =
      (erase s).yieldReturn (thread s context) at_ := by
  have kinds : ((erase s).jobs (thread s context).context.inner).kind =
      (s.tasks context.inner).kind := rfl
  unfold Scheduler.yieldReturn at after ⊢
  unfold Machine.yieldReturn
  change _ = if s.signal = true then _ else _
  by_cases raised : s.signal = true
  · simp only [if_pos raised] at after ⊢
    cases at_ with
    | event => exact interrupted_refines wired running found after
    | wait count => exact interrupted_refines wired running found after
    | cancelWait unsupport caller => exact absurd rfl (inside raised unsupport caller)
  · simp only [if_neg raised]
    cases at_ with
    | event => exact congrArg some (erase_moveTo wired found _)
    | cancelWait unsupport caller => exact congrArg some (erase_moveTo wired found _)
    | wait count =>
        rw [kinds]
        cases kind : (s.tasks context.inner).kind with
        | user => rfl
        | event => rfl
        | group which children =>
            cases which with
            | allOf => exact congrArg some (erase_moveTo wired found _)
            | anyOf =>
                have completed :
                    (fun child => decide (((erase s).jobs child).status = .completed)) =
                      fun child => decide ((s.tasks child).status = .completed) :=
                  funext fun child => decide_eq_decide.mpr (job_status (by decide) (by decide))
                refine congrArg some (written_refines wired found _ ?_ ?_ _)
                · exact fun _ => ⟨rfl, rfl, rfl⟩
                · rw [completed]
                  rfl

theorem signal_refines (wired : Wired s) (running : s.exec = some k)
    (found : s.contexts k = some context) {l : Nat} {other : Context}
    (place : s.contexts l = some other) (apart : l ≠ k) (point : Point) :
    (swapRunning ({ s.setStatus other.base .canceled with signal := true }.moveTo k context point)
      (s.tasks context.inner).uid (s.tasks other.base).uid).map erase =
      Machine.switchTo ({ (erase s).setStatus other.base .canceled with signal := true }.moveTo
        (thread s context) point) (some other.base) := by
  have marked := wired_marks wired s.armed true s.done
  have moved := wired_moveTo (wired_setTask (t := other.base) marked (keeps_status .canceled))
    found point
  have same := restated_refines marked found other.base .canceled (by decide) point
  have named := name_moveTo (s := { s with signal := true }.setStatus other.base .canceled) found
    point (some l)
  have there : s.contexts l ≠ none := by simp [place]
  rw [owner wired found, wired.owned l other place _ (base_mem other)]
  refine (erase_stays moved running.symm fun q going => ?_).trans ?_
  · cases going
    exact (Function.update_of_ne apart _ _).trans_ne there
  · refine congr (congrArg Machine.switchTo same) (named.trans ?_)
    exact name_found place

theorem cancelRound_refines (wired : Wired s) (running : s.exec = some k)
    (found : s.contexts k = some context) {children : List Nat} {i unsupport : Nat}
    {caller : CancelCaller} (alone : caller = .runtime → context.awaits = [])
    (parked : ∀ child, children[i]? = some child → (s.tasks child).status = .running →
      ∃ l other, s.contexts l = some other ∧ other.base = child ∧ l ≠ k)
    (after : ∀ s', Scheduler.cancelRound s k context children i unsupport caller = some s' →
      Wired s') :
    (Scheduler.cancelRound s k context children i unsupport caller).map erase =
      (erase s).cancelRound (thread s context) children i unsupport caller := by
  unfold Scheduler.cancelRound at after ⊢
  unfold Machine.cancelRound
  cases here : children[i]? with
  | none =>
      simp only [here] at after
      dsimp only
      by_cases zero : unsupport = 0
      · simp only [if_pos zero] at after ⊢
        exact cancelReturn_refines wired running found alone after
      · simp only [if_neg zero]
        refine congrArg some (written_refines wired found _ ?_ ?_ _)
        · exact fun _ => ⟨rfl, rfl, rfl⟩
        · rfl
  | some child =>
      have status : ((erase s).jobs child).status = .running ↔
          (s.tasks child).status = .running := job_status (by decide) (by decide)
      have lives : (erase s).live child = s.live child := rfl
      have numbers : (erase s).next = s.next := rfl
      dsimp only
      cases live : s.live child with
      | false => simp [lives, live]
      | true =>
          by_cases runs : (s.tasks child).status = .running
          · simp only [lives, live, status, runs, ← protector_refines, numbers, if_true]
            cases walk : Scheduler.protector s s.next child with
            | none => rfl
            | some stop =>
                cases stop with
                | some final =>
                    -- an uninterruptable task on the way is marked, and the loop goes on
                    by_cases self : final = child
                    · simp only [self, ne_eq, not_true_eq_false, if_false]
                      exact congrArg some (erase_moveTo wired found _)
                    · simp only [self, ne_eq, not_false_eq_true, if_true]
                      exact congrArg some
                        (restated_refines wired found final .canceled (by decide) _)
                | none =>
                    -- a running child is parked on a coroutine of its own
                    obtain ⟨l, other, place, rfl, apart⟩ := parked child here runs
                    exact signal_refines wired running found place apart _
          · simp only [lives, live, status, runs, if_false]
            exact congrArg some (erase_moveTo wired found _)

end Cancellation

section Steps

variable {s : State} {k : Nat} {mode : Mode} {rest : Nest} {context : Context}

theorem adoptChildren_refines {uid : Option Nat} {children : List Nat}
    (given : ∀ child ∈ children, (s.tasks child).status ≠ .limited) :
    (adoptChildren s uid children).map Prod.snd = (erase s).adopts children := by
  induction children generalizing s with
  | nil => rfl
  | cons child others ih =>
      have status : ((erase s).jobs child).status = .ready ↔ (s.tasks child).status = .ready :=
        job_ready (given child (by simp))
      have lives : (erase s).live child = s.live child := rfl
      have jobs : (erase (s.setTask child fun task =>
          { task with blockTo := uid, finishTo := uid })).jobs = (erase s).jobs :=
        (jobs_setTask rfl).trans (congrArg Machine.jobs (Machine.setJob_id (erase s) child))
      have later := @ih (s.setTask child fun task => { task with blockTo := uid, finishTo := uid })
        fun other member => by
          rw [setTask_field Task.status rfl]
          exact given other (by simp [member])
      rw [Machine.adopts_congr jobs (by rfl)] at later
      unfold adoptChildren Machine.adopts
      rw [lives, ← later]
      cases s.live child with
      | false => rfl
      | true =>
          by_cases ready : (s.tasks child).status = .ready
          · simp [ready, status]
          · simp [ready, status]

/-- Taking children in cannot be seen: they are new tasks. -/
theorem adopts_refines {nest : Nest} (inv : Invariant s nest)
    {uid : Option Nat} {adopted : List Nat}
    (ready : ∀ t ∈ adopted, (s.tasks t).status = .ready) :
    Wired (SchedulerObjects.adopts s uid adopted) ∧
      erase (SchedulerObjects.adopts s uid adopted) = erase s ∧
      ∀ k context, s.contexts k = some context →
        thread (SchedulerObjects.adopts s uid adopted) context = thread s context := by
  have kept {l t : Nat} {other : Context} (place : s.contexts l = some other)
      (member : t ∈ other.chain) : (SchedulerObjects.adopts s uid adopted).tasks t = s.tasks t :=
    if_neg fun inside => SchedulerObjects.ready_idle inv (ready t inside) l other place member
  have wired := wired_of inv
  refine ⟨?_, ?_, fun k context found => ?_⟩
  · refine wired_congr wired rfl rfl (fun l next found => ⟨next, found, rfl, rfl⟩)
      (fun _ used => used) fun l other place t member => ?_
    rw [kept place member]
    exact ⟨rfl, fun _ => id, fun _ => id⟩
  · refine Machine.ext ?_ rfl rfl (threads_kept wired rfl fun l other place => ?_) rfl rfl rfl rfl
      rfl rfl rfl
    · funext t
      simp only [erase, job, SchedulerObjects.adopts_fields adopted t]
    · rw [kept place (base_mem other), kept place (inner_mem other)]
      exact ⟨rfl, rfl, rfl⟩
  · refine thread_congr ?_ ?_ rfl rfl
    · rw [kept found (inner_mem context)]
    · rw [kept found (base_mem context)]

theorem runGroup_refines {nest : Nest} (inv : Invariant s nest)
    (found : s.contexts k = some context) {children : List Nat}
    (given : ∀ child ∈ children, (s.tasks child).status ≠ .limited) :
    (Scheduler.runGroup s k context children).map erase =
      (erase s).runGroup (thread s context) children := by
  unfold Scheduler.runGroup Machine.runGroup
  have adoption := @adoptChildren_refines s (s.tasks context.inner).uid children given
  rw [← adoption]
  cases outcome : adoptChildren s (s.tasks context.inner).uid children with
  | none => rfl
  | some result =>
      obtain ⟨after, all⟩ := result
      obtain ⟨taken, others, -, rfl, ready, -⟩ := SchedulerObjects.adoptChildren_spec outcome
      obtain ⟨wired, same, stays⟩ := adopts_refines inv fun t member => (ready t member).2
      have threads := stays k context found
      cases all with
      | true =>
          refine congrArg some ((erase_moveTo wired found _).trans ?_)
          rw [same, threads]
      | false =>
          refine congrArg some ((restated_refines wired found _ _ (by decide) _).trans ?_)
          rw [same, threads]
          rfl

theorem groupStep_refines (inv : Invariant s ((k, mode) :: rest))
    (found : s.contexts k = some context) {which : Combinator} {children : List Nat}
    (kind : (s.tasks context.inner).kind = .group which children)
    (after : ∀ s', Scheduler.groupStep s k context which children context.point = some s' →
      Wired s') :
    (Scheduler.groupStep s k context which children context.point).map erase =
      (erase s).groupStep (thread s context) which children context.point := by
  have wired := wired_of inv
  have running : s.exec = some k := inv.exec
  have placed := SchedulerSteps.placed_of inv found
  cases point : context.point <;> rw [point] at after
  case starting i count =>
      unfold Scheduler.groupStep Machine.groupStep
      dsimp only
      cases here : children[i]? with
      | none => exact congrArg some (erase_moveTo wired found _)
      | some child =>
          obtain ⟨j, uid, managed, free, -⟩ := step_starts_child inv found point kind here
          simp only [Placed, point] at placed
          obtain ⟨-, which', children', kind', family, -, untouched, -⟩ := placed
          rw [kind] at kind'
          cases kind'
          have member : child ∈ children := List.mem_of_getElem? here
          -- the children that have not been started yet lead back to this coroutine
          have waits : child ∈ children.drop i := by
            rw [List.drop_eq_getElem_cons (List.getElem?_eq_some_iff.mp here).1]
            simp [(List.getElem?_eq_some_iff.mp here).2]
          have live := family.live child member
          have block := (untouched child waits).2
          have finish := family.finish child member
          have there : s.contexts k ≠ none := by simp [found]
          have spawned := spawn_refines wired running found live uid managed free
            (fun q going => by rw [block] at going; cases going; exact there)
            (fun q going => by rw [finish] at going; cases going; exact there) (.started i count)
          dsimp only
          rw [if_pos live, owner wired found, uid, spawned, block, finish, name_found found]
          rfl
  case started i count =>
      unfold Scheduler.groupStep Machine.groupStep
      dsimp only
      cases here : children[i]? with
      | none => rfl
      | some child =>
          have status : ((erase s).jobs child).status = .completed ↔
              (s.tasks child).status = .completed := job_status (by decide) (by decide)
          have lives : (erase s).live child = s.live child := rfl
          dsimp only
          rw [lives]
          cases s.live child with
          | false => rfl
          | true =>
              by_cases completed : (s.tasks child).status = .completed
              · simp only [completed, status, if_true]
                cases which with
                | allOf => exact congrArg some (erase_moveTo wired found _)
                | anyOf =>
                    refine congrArg some (written_refines wired found _ ?_ ?_ _)
                    · exact fun _ => ⟨rfl, rfl, rfl⟩
                    · rfl
              · simp only [completed, status, if_false]
                exact congrArg some (erase_moveTo wired found _)
  case waiting count =>
      unfold Scheduler.groupStep Machine.groupStep
      cases which with
      | allOf =>
          dsimp only
          split
          · exact congrArg some (erase_moveTo wired found _)
          · exact yield_refines wired running found _
      | anyOf =>
          dsimp only
          change _ = if (s.tasks context.inner).completedId = none then _ else _
          split
          · exact yield_refines wired running found _
          · exact congrArg some (erase_moveTo wired found _)
  case cancelLoop i unsupport caller =>
      simp only [Placed, point] at placed
      obtain ⟨which', children', kind', -, -, -, calls⟩ := placed
      refine cancelRound_refines wired running found ?_ (fun child here runs => ?_) after
      · -- `__task_runtime` calls `cancel()` only behind the last `__await`
        rintro rfl
        exact calls.2
      · obtain ⟨l, other, place, base, -, -, apart, -⟩ :=
          SchedulerCancel.running_child inv found kind (by rw [point]; rfl)
            (List.mem_of_getElem? here) runs
        exact ⟨l, other, place, base, apart⟩
  case canceling i unsupport caller => exact congrArg some (erase_moveTo wired found _)
  case cancelWait unsupport caller =>
      simp only [Placed, point] at placed
      obtain ⟨rfl, -⟩ := placed
      unfold Scheduler.groupStep Machine.groupStep
      dsimp only
      split
      · exact congrArg some (erase_moveTo wired found _)
      · exact yield_refines wired running found _
  case goal => exact congrArg some (erase_moveTo wired found _)
  all_goals rfl

theorem coroutineStep_refines (inv : Invariant s ((k, mode) :: rest))
    (found : s.contexts k = some context)
    (given : context.point = .enter →
      ∀ child ∈ SchedulerRuns.childrenOf (s.tasks context.inner).kind,
        (s.tasks child).status ≠ .limited)
    (after : ∀ s', Scheduler.coroutineStep s k context = some s' → Wired s') :
    (Scheduler.coroutineStep s k context).map erase =
      (erase s).coroutineStep (thread s context) := by
  have wired := wired_of inv
  have running : s.exec = some k := inv.exec
  have kinds : ((erase s).jobs (thread s context).context.inner).kind =
      (s.tasks context.inner).kind := rfl
  have points : (thread s context).context.point = context.point := rfl
  unfold Scheduler.coroutineStep at after ⊢
  unfold Machine.coroutineStep
  rw [kinds, points]
  cases point : context.point <;> rw [point] at after
  case enter =>
      cases kind : (s.tasks context.inner).kind with
      | user => exact congrArg some (erase_moveTo wired found _)
      | event => rfl
      | group which children =>
          refine runGroup_refines inv found fun child member => given point child ?_
          rw [kind]
          exact member
  case inStart target => exact congrArg some (erase_moveTo wired found _)
  case yielded at_ =>
      refine yieldReturn_refines wired running found (fun raised unsupport caller waits => ?_) after
      -- the coroutine that is to be unwound does not wait in its own `cancel()`
      have placed := SchedulerSteps.placed_of inv found
      subst waits
      simp only [Placed, point] at placed
      exact placed.2.1 (SchedulerSteps.signalled inv found raised).1
  case returning => exact runReturn_refines wired running found after
  case throwing => exact runThrow_refines wired running found after
  all_goals
    cases kind : (s.tasks context.inner).kind with
    | user => rfl
    | event => rfl
    | group which children =>
        rw [kind] at after
        have grouped := groupStep_refines inv found kind
        rw [point] at grouped
        exact grouped after

/-- A task is constructed without id; ids are given out by the pools. -/
def Plain (label : Label) : Prop := ∀ kind id, label ≠ .construct kind (some id)

theorem construct_refines {nest : Nest} (inv : Invariant s nest) (kind : Kind) :
    (Scheduler.construct s kind none).map erase = some ((erase s).construct kind) := by
  have idle := (SchedulerObjects.next_spare inv).1
  have kept {l t : Nat} {other : Context} (place : s.contexts l = some other)
      (member : t ∈ other.chain) :
      Function.update s.tasks s.next { kind := kind } t = s.tasks t := by
    refine Function.update_of_ne ?_ _ _
    rintro rfl
    exact idle l other place member
  refine congrArg some (Machine.ext (jobs_update _ _ _) rfl rfl ?_ rfl rfl rfl rfl rfl rfl rfl)
  refine threads_kept (wired_of inv) rfl fun l other place => ?_
  dsimp only
  rw [kept place (base_mem other), kept place (inner_mem other)]
  exact ⟨rfl, rfl, rfl⟩

theorem objectStep_refines {nest : Nest} (inv : Invariant s nest) {label : Label}
    (plain : Plain label) :
    (Scheduler.objectStep s label).map erase = (erase s).objectStep label := by
  have wired := wired_of inv
  cases label with
  | construct kind uid =>
      cases uid with
      | some id => exact absurd rfl (plain kind id)
      | none =>
          have built := construct_refines inv kind
          cases kind with
          | user => exact built
          | event => exact built
          | group which children =>
              cases children with
              | nil => rfl
              | cons child others => exact built
  | destroy target =>
      change _ = if s.live target = true then _ else _
      unfold Scheduler.objectStep
      dsimp only
      split <;> rfl
  | uninterruptable target =>
      change _ = if s.live target = true then _ else _
      unfold Scheduler.objectStep
      dsimp only
      split
      · refine congrArg some (erase_setTask _ ?_ ?_)
        · exact fun _ => ⟨rfl, rfl, rfl⟩
        · rfl
      · rfl
  | _ => rfl

theorem host_refines {nest : Nest} (inv : Invariant s nest) (found : s.contexts k = some context) :
    (erase s).host context.inner = some context.base := by
  have wired := wired_of inv
  have here : threads s context.base = some (thread s context) :=
    threads_base (wired.owned k context found _ (base_mem context)) found
  have bound : context.base < s.next :=
    inv.bounded _ ((inv.sound k context found).owned _ (base_mem context)).1
  -- a task is innermost on one stack only
  have only (base : Nat) (there : ((erase s).threads base).any
      (fun thread => thread.context.inner = context.inner) = true) : base = context.base := by
    obtain ⟨other, at_, inner⟩ := Option.any_eq_true .. |>.mp there
    obtain ⟨l, lower, -, place, rfl, rfl⟩ := threads_some at_
    by_cases apart : l = k
    · subst apart
      rw [found] at place
      cases place
      rfl
    · have same : lower.inner = context.inner := of_decide_eq_true inner
      exact absurd same (stranger wired found place apart (inner_mem context) (inner_mem lower))
  unfold Machine.host
  cases search : (List.range (erase s).next).find? fun base =>
      ((erase s).threads base).any fun thread => thread.context.inner = context.inner with
  | none =>
      have missed := List.find?_eq_none.mp search context.base (List.mem_range.mpr bound)
      change ¬(threads s context.base).any _ = true at missed
      rw [here] at missed
      exact absurd (decide_eq_true rfl) missed
  | some base =>
      have matched := List.find?_some search
      exact congrArg some (only base matched)

/-- What a program promises about ids: a task that is started, given to `cocoflow` or taken
in by a combinator has found one. -/
def Fed (s : State) : Label → Prop
  | .start t | .cocoflow t => (s.tasks t).status ≠ .limited
  | .tau => ∀ context ∈ SchedulerRuns.running s, context.point = .enter →
      ∀ t ∈ SchedulerRuns.childrenOf (s.tasks context.inner).kind, (s.tasks t).status ≠ .limited
  | _ => True

instance (s : State) : (label : Label) → Decidable (Fed s label)
  | .start t | .cocoflow t => inferInstanceAs (Decidable ((s.tasks t).status ≠ .limited))
  | .tau => inferInstanceAs (Decidable (∀ context ∈ SchedulerRuns.running s,
      context.point = .enter → ∀ t ∈ SchedulerRuns.childrenOf (s.tasks context.inner).kind,
        (s.tasks t).status ≠ .limited))
  | .await _ | .destroy _ | .uninterruptable _ | .block | .skip | .ret | .construct _ _
  | .event _ => isTrue trivial

theorem userStep_refines (inv : Invariant s ((k, mode) :: rest))
    (found : s.contexts k = some context) {label : Label}
    (regular : SchedulerRuns.Regular s label) (fed : Fed s label) (plain : Plain label) :
    (Scheduler.userStep s k context label).map erase =
      (erase s).userStep (thread s context) label := by
  have wired := wired_of inv
  have shown : context ∈ SchedulerRuns.running s := by
    rw [SchedulerRuns.running, inv.exec]
    exact found
  obtain ⟨disciplined, caller, -⟩ := regular
  cases label with
  | await target =>
      exact await_refines wired found (SchedulerRuns.idle_of inv disciplined.1)
        fun new => caller new context shown
  | start target =>
      obtain ⟨parent, member, current⟩ := inv.current k context inv.exec found
      exact start_refines wired inv.exec found current member
        (SchedulerRuns.idle_of inv disciplined.1) fed (inv.fresh target)
  | ret => exact congrArg some (erase_moveTo wired found _)
  | _ => exact objectStep_refines inv plain

theorem contextStep_refines (inv : Invariant s ((k, mode) :: rest))
    (found : s.contexts k = some context) {label : Label}
    (regular : SchedulerRuns.Regular s label) (fed : Fed s label) (plain : Plain label)
    (after : ∀ s', Scheduler.contextStep s k context label = some s' → Wired s') :
    (Scheduler.contextStep s k context label).map erase =
      (erase s).threadStep (thread s context) label := by
  have wired := wired_of inv
  have shown : context ∈ SchedulerRuns.running s := by
    rw [SchedulerRuns.running, inv.exec]
    exact found
  have kinds : ((erase s).jobs (thread s context).context.inner).kind =
      (s.tasks context.inner).kind := rfl
  have points : (thread s context).context.point = context.point := rfl
  unfold Scheduler.contextStep at after ⊢
  unfold Machine.threadStep
  rw [kinds, points]
  cases label with
  | tau => exact coroutineStep_refines inv found (fun enters => fed context shown enters) after
  | block =>
      cases context.point <;> cases (s.tasks context.inner).kind <;> try rfl
      have armed := wired_marks wired (Function.update s.armed context.inner true) s.signal s.done
      exact yield_refines armed inv.exec found .event
  | skip =>
      cases context.point <;> cases (s.tasks context.inner).kind <;> try rfl
      exact congrArg some (erase_moveTo wired found _)
  | destroy target =>
      cases context.point <;> cases (s.tasks context.inner).kind <;> try rfl
      · exact userStep_refines inv found regular fed plain
      · exact objectStep_refines inv plain
  | _ =>
      cases context.point <;> cases (s.tasks context.inner).kind <;>
        first | rfl | exact userStep_refines inv found regular fed plain

theorem cocoflow_refines (inv : Invariant s []) {t : Nat} (live : s.live t = true)
    (ready : (s.tasks t).status = .ready) :
    (swapRunning { s.setTask t fun task => { task with blockTo := none, finishTo := none } with
      top := some t } none (s.tasks t).uid).map erase =
      Machine.launch { erase s with top := some t } t none none := by
  have wired := wired_of inv
  have idle := SchedulerObjects.ready_idle inv ready
  obtain ⟨j, uid, managed, free⟩ := inv.fresh t live ready
  have untied := wired_idle wired idle fun task => { task with blockTo := none, finishTo := none }
  have same : erase (s.setTask t fun task => { task with blockTo := none, finishTo := none }) =
      erase s := by
    rw [erase_idle id wired idle rfl, Machine.setJob_id]
  have topped : Wired { s.setTask t fun task => { task with blockTo := none, finishTo := none } with
      top := some t } := wired_ids untied rfl rfl rfl fun _ => ⟨rfl, rfl, rfl⟩
  have self : (s.setTask t fun task => { task with blockTo := none, finishTo := none }).tasks t =
      { s.tasks t with blockTo := none, finishTo := none } := setTask_self ..
  have own := (congrArg Task.uid self).trans uid
  have block := congrArg Task.blockTo self
  have finish := congrArg Task.finishTo self
  rw [uid]
  refine (erase_launch topped inv.exec.symm free managed live own (fun q going => ?_)
    fun q going => ?_).trans ?_
  · cases block.symm.trans going
  · cases finish.symm.trans going
  · have topping := congrArg (fun m : Machine => { m with top := some t }) same
    exact congr (congr (congrArg (fun m => Machine.launch m t) topping)
      (congrArg (name s) block)) (congrArg (name s) finish)

theorem loopStep_refines (inv : Invariant s []) {label : Label}
    (regular : SchedulerRuns.Regular s label) (plain : Plain label) :
    (Scheduler.loopStep s label).map erase = (erase s).loopStep label := by
  have wired := wired_of inv
  cases label with
  | event t =>
      unfold Scheduler.loopStep Machine.loopStep
      dsimp only
      change _ = if s.armed t = true ∧ s.live t = true then _ else _
      by_cases pending : s.armed t = true ∧ s.live t = true
      · rw [if_pos pending, if_pos pending]
        obtain ⟨-, k, context, found, rfl, -⟩ := inv.armed t pending.1
        have disarmed := wired_marks wired (Function.update s.armed context.inner false) s.signal
          s.done
        have there : s.contexts k ≠ none := by simp [found]
        rw [host_refines inv found, owner wired found, ← name_found found]
        exact erase_stays disarmed inv.exec.symm fun q going => by cases going; exact there
      · rw [if_neg pending, if_neg pending]
        rfl
  | cocoflow t =>
      unfold Scheduler.loopStep Machine.loopStep
      dsimp only
      change _ = if s.top = none ∧ s.live t = true then _ else _
      by_cases allowed : s.top = none ∧ s.live t = true
      · rw [if_pos allowed, if_pos allowed]
        exact cocoflow_refines inv allowed.2 regular.1.1
      · rw [if_neg allowed, if_neg allowed]
        rfl
  | _ =>
      unfold Scheduler.loopStep Machine.loopStep
      dsimp only
      change _ = if s.top = none then _ else _
      split
      · exact objectStep_refines inv plain
      · rfl

/-- The refinement: a step of the scheduler is a step of the scheduler without ids. -/
theorem step_refines {nest : Nest} (inv : Invariant s nest) {label : Label}
    (regular : SchedulerRuns.Regular s label) (fed : Fed s label) (plain : Plain label) :
    (Scheduler.step s label).map erase = (erase s).step label := by
  have after (s' : State) (taken : Scheduler.step s label = some s') : Wired s' := by
    obtain ⟨next, kept, -⟩ := SchedulerRuns.step_kept inv regular taken
    exact wired_of kept
  unfold Scheduler.step at after ⊢
  unfold Machine.step
  cases nest with
  | nil =>
      have outside : s.exec = none := inv.exec
      have named : (erase s).exec = none := congrArg (name s) outside
      rw [outside, named]
      exact loopStep_refines inv regular plain
  | cons entry rest =>
      obtain ⟨k, mode⟩ := entry
      have running : s.exec = some k := inv.exec
      cases found : s.contexts k with
      | none => exact absurd found ((wired_of inv).exec k running)
      | some context =>
          have named : (erase s).exec = some context.base :=
            (congrArg (name s) running).trans (name_found found)
          have here : (erase s).threads context.base = some (thread s context) :=
            threads_base ((wired_of inv).owned k context found _ (base_mem context)) found
          simp only [running, found] at after
          simp only [running, found, named, here]
          exact contextStep_refines inv found regular fed plain after

end Steps

end Cocoflow.ThreadRefinement
