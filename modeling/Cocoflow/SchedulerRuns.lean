import Mathlib.Logic.Function.Basic
import Mathlib.Data.List.Basic
import Cocoflow.LabelledRuns
import Cocoflow.SchedulerFinish

/-!
Whole runs of the scheduler. `Disciplined` is what a program promises: no task is used twice
at the same time, and nothing is destroyed while it is in use. Two further conditions exclude
the states in which the bookkeeping of the scheduler goes wrong: a call of `await` in a task
that is not the one `global_current_task` shows, and a `cancel()` of a combinator that has to
wait for an uninterruptable task. In every run that meets all three, control stays properly
nested.
-/

namespace Cocoflow.SchedulerRuns

open LabelledRuns Scheduler SchedulerNest SchedulerLocal SchedulerSteps SchedulerCalls
open SchedulerObjects SchedulerCancel SchedulerSwitch SchedulerFinish

def childrenOf : Kind → List Nat
  | .group _ children => children
  | _ => []

/-- The task is on the stack of a coroutine. -/
def Engaged (s : State) (t : Nat) : Prop :=
  ∃ context ∈ (s.tasks t).uid.bind s.contexts, t ∈ context.chain

/-- The task is a child of an open combinator. -/
def Claimed (s : State) (t : Nat) : Prop :=
  ∃ o < s.next, ∃ context ∈ (s.tasks o).uid.bind s.contexts,
    context.inner = o ∧ opened context.point = true ∧ t ∈ childrenOf (s.tasks o).kind

def running (s : State) : Option Context := s.exec.bind s.contexts

/-- What a program promises about its tasks. -/
def Disciplined (s : State) : Label → Prop
  | .await t => ¬Engaged s t ∧
      ((s.tasks t).status = .ready ∨ (s.tasks t).status = .limited → ¬Claimed s t)
  | .start t => ¬Engaged s t ∧ ¬Claimed s t
  | .destroy t => ¬Engaged s t ∧ ¬Claimed s t
  | .uninterruptable t => ¬Engaged s t
  | .cocoflow t => (s.tasks t).status = .ready ∧ ¬Claimed s t
  | .tau => ∀ context ∈ running s, context.point = .enter →
      (childrenOf (s.tasks context.inner).kind).Nodup ∧
        ∀ t ∈ childrenOf (s.tasks context.inner).kind, ¬Claimed s t
  | _ => True

/-- `__await` takes the calling task for its parent. -/
def CallerCurrent (s : State) : Label → Prop
  | .await t => (s.tasks t).status = .ready ∨ (s.tasks t).status = .limited →
      ∀ context ∈ running s, s.current = some context.inner
  | _ => True

/-- The cancel loop has ended and `__task_cancel_children` is about to wait, although it was
not `any_of::run` that called it. -/
def delays (children : List Nat) : Point → Bool
  | .cancelLoop i unsupport caller =>
      children[i]? = none ∧ unsupport ≠ 0 ∧ caller ≠ .anyRun
  | _ => false

/-- The `cancel()` of a combinator ends without waiting for uninterruptable tasks. -/
def CancelsAtOnce (s : State) : Label → Prop
  | .tau => ∀ context ∈ running s,
      delays (childrenOf (s.tasks context.inner).kind) context.point = false
  | _ => True

def Regular (s : State) (label : Label) : Prop :=
  Disciplined s label ∧ CallerCurrent s label ∧ CancelsAtOnce s label

section Decidability

variable (s : State)

instance (t : Nat) : Decidable (Engaged s t) :=
  inferInstanceAs (Decidable (∃ context ∈ (s.tasks t).uid.bind s.contexts, t ∈ context.chain))

instance (t : Nat) : Decidable (Claimed s t) :=
  inferInstanceAs (Decidable (∃ o < s.next, ∃ context ∈ (s.tasks o).uid.bind s.contexts,
    context.inner = o ∧ opened context.point = true ∧ t ∈ childrenOf (s.tasks o).kind))

instance : (label : Label) → Decidable (Disciplined s label)
  | .await t => inferInstanceAs (Decidable (¬Engaged s t ∧
      ((s.tasks t).status = .ready ∨ (s.tasks t).status = .limited → ¬Claimed s t)))
  | .start t => inferInstanceAs (Decidable (¬Engaged s t ∧ ¬Claimed s t))
  | .destroy t => inferInstanceAs (Decidable (¬Engaged s t ∧ ¬Claimed s t))
  | .uninterruptable t => inferInstanceAs (Decidable (¬Engaged s t))
  | .cocoflow t => inferInstanceAs (Decidable ((s.tasks t).status = .ready ∧ ¬Claimed s t))
  | .tau => inferInstanceAs (Decidable (∀ context ∈ running s, context.point = .enter →
      (childrenOf (s.tasks context.inner).kind).Nodup ∧
        ∀ t ∈ childrenOf (s.tasks context.inner).kind, ¬Claimed s t))
  | .block | .skip | .ret | .construct _ _ | .event _ => isTrue trivial

instance : (label : Label) → Decidable (CallerCurrent s label)
  | .await t => inferInstanceAs (Decidable
      ((s.tasks t).status = .ready ∨ (s.tasks t).status = .limited →
        ∀ context ∈ running s, s.current = some context.inner))
  | .start _ | .destroy _ | .uninterruptable _ | .cocoflow _ | .tau | .block | .skip | .ret
  | .construct _ _ | .event _ => isTrue trivial

instance : (label : Label) → Decidable (CancelsAtOnce s label)
  | .tau => inferInstanceAs (Decidable (∀ context ∈ running s,
      delays (childrenOf (s.tasks context.inner).kind) context.point = false))
  | .await _ | .start _ | .destroy _ | .uninterruptable _ | .cocoflow _ | .block | .skip | .ret
  | .construct _ _ | .event _ => isTrue trivial

instance (label : Label) : Decidable (Regular s label) :=
  inferInstanceAs (Decidable
    (Disciplined s label ∧ CallerCurrent s label ∧ CancelsAtOnce s label))

end Decidability

inductive Turn (s s' : State) : Nest → Nest → Prop where
  | stays (nest : Nest) : Turn s s' nest nest
  | pushes (k : Nat) (mode : Mode) (nest : Nest)
      (place : ∀ context, s'.contexts k = some context →
        context.point = .enter ∨ ∃ at_, context.point = .yielded at_) :
      Turn s s' nest ((k, mode) :: nest)
  | pops (k : Nat) (mode : Mode) (rest : Nest)
      (kept : ∀ l, l ≠ k → s'.contexts l = s.contexts l)
      (left : ∀ context, s'.contexts k = some context → ∃ at_, context.point = .yielded at_) :
      Turn s s' ((k, mode) :: rest) rest
  | wakes (k : Nat) (mode : Mode) (p : Nat)
      (place : ∀ context, s'.contexts p = some context → ∃ at_, context.point = .yielded at_) :
      Turn s s' [(k, mode)] [(p, .live none)]

def Kept (s s' : State) (nest : Nest) : Prop :=
  ∃ after, Invariant s' after ∧ Turn s s' nest after

section Conditions

variable {s : State} {nest : Nest} {t : Nat}

theorem idle_of (inv : Invariant s nest) (free : ¬Engaged s t) : Idle s t := by
  intro l other there member
  have own := ((inv.sound l other there).owned t member).2
  exact free ⟨other, by rw [own]; exact there, member⟩

theorem unclaimed_of (inv : Invariant s nest) (free : ¬Claimed s t) : Unclaimed s t := by
  intro l other which children there kind open_ member
  obtain ⟨live, own⟩ := (inv.sound l other there).owned _ (inner_mem other)
  refine free ⟨other.inner, inv.bounded _ live, other, by rw [own]; exact there, rfl, open_, ?_⟩
  rw [kind]
  exact member

theorem stays_kept {s' : State} (inv : Invariant s' nest) : Kept s s' nest :=
  ⟨nest, inv, .stays nest⟩

end Conditions

section Library

variable {s s' : State} {k : Nat} {mode : Mode} {rest : Nest} {context : Context}

theorem ended_kept (ended : Ended s s' k rest) : Kept s s' ((k, mode) :: rest) := by
  obtain ⟨contexts, inv | ⟨rfl, p, place, inv, there, yields⟩⟩ := ended
  · refine ⟨rest, inv, .pops k mode rest (fun l apart => ?_) (fun next moved => ?_)⟩
    · rw [contexts, Function.update_of_ne apart]
    · rw [contexts, Function.update_self] at moved
      cases moved
  · refine ⟨_, inv, .wakes k mode p fun next moved => ?_⟩
    rw [there] at moved
    cases moved
    exact yields

theorem keeps_yield {token : Option Nat} {at_ : YieldAt} {armed : Nat → Bool}
    (inv : Invariant s ((k, .live token) :: rest)) (found : s.contexts k = some context)
    (taken : taskYield { s with armed := armed } k context at_ = some s')
    (parked : Invariant (yields s k context at_ token armed) rest) :
    Kept s s' ((k, .live token) :: rest) := by
  rw [taskYield_yields inv found] at taken
  cases taken
  refine ⟨rest, parked, .pops k _ rest (fun l apart => Function.update_of_ne apart _ _)
    fun next moved => ?_⟩
  change Function.update s.contexts k _ k = some next at moved
  rw [Function.update_self] at moved
  cases moved
  exact ⟨at_, rfl⟩

theorem setStatus_same {t : Nat} {status : Status} (already : (s.tasks t).status = status) :
    (s.setStatus t status).tasks = s.tasks := by
  subst already
  exact Function.update_eq_self ..

theorem keeps_cancelReturn (inv : Invariant s ((k, mode) :: rest))
    (found : s.contexts k = some context) {i : Nat} {caller : CancelCaller} {which : Combinator}
    {children : List Nat} (point : context.point = .cancelLoop i 0 caller)
    (kind : (s.tasks context.inner).kind = .group which children) (ended : children[i]? = none)
    (taken : cancelReturn s k context caller = some s') : Kept s s' ((k, mode) :: rest) := by
  obtain ⟨family, count, calls⟩ := cancelLoop_ended inv found point kind ended
  cases caller with
  | anyRun =>
      cases taken
      obtain ⟨live, rfl, picked⟩ := calls
      exact stays_kept (step_cancel_goal inv found kind (by simp [point, cancels]) live picked
        count.symm)
  | yield =>
      cases taken
      exact stays_kept (step_cancelLoop_yield inv found point kind ended)
  | await =>
      obtain ⟨rfl, inside, canceled⟩ := calls
      obtain ⟨awake, calm⟩ := calm_of inv found (Or.inr (by simp [point]))
      cases awaits : context.awaits with
      | nil => exact absurd awaits inside
      | cons frame outer =>
          simp only [cancelReturn, awaits, Option.some.injEq] at taken
          subst taken
          refine stays_kept (step_await_rethrows inv found awaits rfl (setStatus_same canceled).symm
            (fun t armed => ⟨armed, ?_⟩) awake
            (fun _ l other there => no_adoptee inv found kind (active_zero count.symm) there)
            (fun t member => ((unwound inv found).2 t member).1) (Or.inl rfl))
          rintro rfl
          rw [calm] at armed
          cases armed
  | runtime => exact ended_kept (step_runtime_canceled inv found taken point kind ended)
  | cancelWait => cases taken

theorem keeps_cancelRound (inv : Invariant s ((k, mode) :: rest))
    (found : s.contexts k = some context) {i unsupport : Nat} {caller : CancelCaller}
    {which : Combinator} {children : List Nat}
    (point : context.point = .cancelLoop i unsupport caller)
    (kind : (s.tasks context.inner).kind = .group which children)
    (atOnce : delays children context.point = false)
    (taken : cancelRound s k context children i unsupport caller = some s') :
    Kept s s' ((k, mode) :: rest) := by
  have inside : cancels context.point = true := by rw [point]; rfl
  unfold cancelRound at taken
  cases here : children[i]? with
  | none =>
      rw [here] at taken
      dsimp only at taken
      split at taken
      · rename_i zero
        subst zero
        exact keeps_cancelReturn inv found point kind here taken
      · rename_i waiting
        cases taken
        -- a `cancel()` that had to wait is excluded
        have any : caller = .anyRun := by
          simpa [delays, point, here, waiting] using atOnce
        subst any
        exact stays_kept (step_cancelLoop_marks inv found point kind here)
  | some child =>
      rw [here] at taken
      dsimp only at taken
      split at taken
      · cases taken
      · split at taken
        · rename_i runs
          have member : child ∈ children := List.mem_of_getElem? here
          obtain ⟨l, other, there, base, uid, finish, apart, parked⟩ :=
            running_child inv found kind inside member runs
          subst base
          have owner := ((inv.sound k context found).owned _ (inner_mem context)).2
          rcases protector_chain inv there with
            ⟨final, before, after, walk, marked, split, open_⟩ | ⟨walk, open_⟩
          · rw [walk] at taken
            cases taken
            by_cases self : final = other.base
            · rw [if_neg (by simp [self])]
              exact stays_kept (step_cancelLoop_count inv found point kind here runs)
            · rw [if_pos self]
              -- the flagged task is not the child itself, so the child is above it
              have more : after ≠ [] := by
                rintro rfl
                have last : other.chain.getLast? = some other.base := by simp [Context.chain]
                rw [split] at last
                simp at last
                exact self last
              have flagged := inv_flags inv found inside there finish marked split more open_
              have restates : Restates s (s.setStatus final .canceled) final :=
                restates_setStatus .canceled
              refine stays_kept (step_cancelLoop_count flagged found point
                ((restates.fields _).1.trans kind) here ?_)
              rw [restates.tasks _ (Ne.symm self)]
              exact runs
          · rw [walk] at taken
            dsimp only at taken
            rw [owner, uid, swapRunning_back (by exact inv.exec.symm) (fun q going => by
              cases going
              exact ⟨other, (Function.update_of_ne apart _ _).trans there⟩)] at taken
            cases taken
            refine ⟨_, step_signals inv found point kind here runs there rfl open_,
              .pushes l .cancelling _ fun next moved => Or.inr ?_⟩
            change Function.update s.contexts k _ l = some next at moved
            rw [Function.update_of_ne apart, there] at moved
            cases moved
            have sound := inv.sound l other there
            rw [parked] at sound
            exact placed_parked sound.placed
        · rename_i stopped
          cases taken
          exact stays_kept (step_cancelLoop_skip inv found point kind here stopped)

theorem keeps_starting (inv : Invariant s ((k, mode) :: rest))
    (found : s.contexts k = some context) {i count : Nat} {which : Combinator}
    {children : List Nat} (point : context.point = .starting i count)
    (kind : (s.tasks context.inner).kind = .group which children)
    (taken : groupStep s k context which children (.starting i count) = some s') :
    Kept s s' ((k, mode) :: rest) := by
  unfold groupStep at taken
  dsimp only at taken
  cases here : children[i]? with
  | none =>
      rw [here] at taken
      cases taken
      exact stays_kept (step_starting_end inv found point kind here)
  | some child =>
      rw [here] at taken
      dsimp only at taken
      split at taken
      · rename_i live
        have owner := ((inv.sound k context found).owned _ (inner_mem context)).2
        obtain ⟨j, uid, managed, free, started⟩ := step_starts_child inv found point kind here
        have apart : j ≠ k := by
          rintro rfl
          rw [found] at free
          cases free
        have switch : swapRunning (s.moveTo k context (.started i count)) (some k) (some j) =
            some (spawns (s.moveTo k context (.started i count)) child j) :=
          swapRunning_spawns inv.exec.symm ((Function.update_of_ne apart _ _).trans free) managed
            live
        rw [owner, uid, switch] at taken
        cases taken
        refine ⟨_, started, .pushes j _ _ fun next moved => Or.inl ?_⟩
        rw [spawns_here] at moved
        cases moved
        rfl
      · cases taken

theorem keeps_started (inv : Invariant s ((k, mode) :: rest))
    (found : s.contexts k = some context) {i count : Nat} {which : Combinator}
    {children : List Nat} (point : context.point = .started i count)
    (kind : (s.tasks context.inner).kind = .group which children)
    (taken : groupStep s k context which children (.started i count) = some s') :
    Kept s s' ((k, mode) :: rest) := by
  unfold groupStep at taken
  dsimp only at taken
  cases here : children[i]? with
  | none =>
      rw [here] at taken
      cases taken
  | some child =>
      rw [here] at taken
      dsimp only at taken
      split at taken
      · cases taken
      · split at taken
        · rename_i completed
          cases which with
          | allOf =>
              cases taken
              exact stays_kept (step_started_next inv found point kind fun _ =>
                progress_completes here completed)
          | anyOf =>
              cases taken
              exact stays_kept (step_started_chosen inv found point kind here completed)
        · rename_i open_
          cases taken
          exact stays_kept (step_started_next inv found point kind fun uncanceled =>
            progress_waits here open_ (uncanceled child here))

theorem keeps_waiting (inv : Invariant s ((k, mode) :: rest))
    (found : s.contexts k = some context) {count : Nat} {which : Combinator}
    {children : List Nat} (point : context.point = .waiting count)
    (kind : (s.tasks context.inner).kind = .group which children)
    (taken : groupStep s k context which children (.waiting count) = some s') :
    Kept s s' ((k, mode) :: rest) := by
  have placed := placed_of inv found
  simp only [Placed, point] at placed
  obtain ⟨⟨token, rfl⟩, -⟩ := placed
  unfold groupStep at taken
  dsimp only at taken
  cases which with
  | allOf =>
      dsimp only at taken
      split at taken
      · rename_i zero
        subst zero
        cases taken
        exact stays_kept (step_waiting_goal inv found point kind)
      · rename_i waiting
        exact keeps_yield inv found taken (step_waits inv found point kind waiting)
  | anyOf =>
      dsimp only at taken
      split at taken
      · rename_i unchosen
        exact keeps_yield inv found taken (step_waits inv found point kind unchosen)
      · rename_i chosen
        cases taken
        exact stays_kept (step_waiting_cancels inv found point kind chosen)

theorem keeps_cancelWait (inv : Invariant s ((k, mode) :: rest))
    (found : s.contexts k = some context) {unsupport : Nat} {caller : CancelCaller}
    {which : Combinator} {children : List Nat}
    (point : context.point = .cancelWait unsupport caller)
    (taken : groupStep s k context which children (.cancelWait unsupport caller) = some s') :
    Kept s s' ((k, mode) :: rest) := by
  have placed := placed_of inv found
  simp only [Placed, point] at placed
  obtain ⟨rfl, ⟨token, rfl⟩, -, group, kind, -, picked, count⟩ := placed
  unfold groupStep at taken
  dsimp only at taken
  split at taken
  · rename_i zero
    cases taken
    exact stays_kept (step_cancel_goal inv found kind (by simp [point, cancels]) ⟨token, rfl⟩
      picked (count.symm.trans zero))
  · exact keeps_yield inv found taken (step_cancel_waits inv found point)

theorem keeps_yielded (inv : Invariant s ((k, mode) :: rest))
    (found : s.contexts k = some context) {at_ : YieldAt} (point : context.point = .yielded at_)
    (taken : yieldReturn s k context at_ = some s') : Kept s s' ((k, mode) :: rest) := by
  have placed := placed_of inv found
  unfold yieldReturn at taken
  dsimp only at taken
  split at taken
  · rename_i raised
    obtain ⟨rfl, -⟩ := signalled inv found raised
    have regular : ∀ unsupport caller, at_ ≠ .cancelWait unsupport caller := by
      rintro unsupport caller rfl
      simp only [Placed, point] at placed
      exact absurd rfl placed.2.1
    split at taken
    · have interrupts := step_interrupts inv found point raised
      cases at_ with
      | event =>
          cases taken
          exact stays_kept interrupts
      | wait count =>
          cases taken
          exact stays_kept interrupts
      | cancelWait unsupport caller => exact absurd rfl (regular unsupport caller)
    · rename_i selected
      have canceled : (s.tasks context.inner).status = .canceled := by simpa using selected
      cases at_ with
      | event =>
          simp only [Placed, point] at placed
          simp only [cancelTask, placed, cancelReturn] at taken
          cases taken
          exact stays_kept (step_cancels_event inv found point raised canceled placed)
      | wait count =>
          simp only [Placed, point] at placed
          obtain ⟨which, children, kind, -⟩ := placed
          simp only [cancelTask, kind] at taken
          cases taken
          exact stays_kept (step_cancels_group inv found point raised canceled kind)
      | cancelWait unsupport caller => exact absurd rfl (regular unsupport caller)
  · rename_i unraised
    have live := unsignalled inv found point (by simpa using unraised)
    cases at_ with
    | event =>
        cases taken
        exact stays_kept (step_return inv found live (by simp [point, opened]) (by simp [point]))
    | wait count =>
        obtain ⟨token, rfl⟩ := id live
        simp only [Placed, point] at placed
        obtain ⟨which, children, kind, -⟩ := placed
        dsimp only at taken
        rw [kind] at taken
        cases which with
        | allOf =>
            cases taken
            exact stays_kept (step_woken_allOf inv found point kind live)
        | anyOf =>
            cases taken
            exact stays_kept (step_woken_anyOf inv found point kind live)
    | cancelWait unsupport caller =>
        cases taken
        exact stays_kept (step_woken_cancelWait inv found point live)

theorem keeps_returning (inv : Invariant s ((k, mode) :: rest))
    (found : s.contexts k = some context) (point : context.point = .returning)
    (taken : runReturn s k context = some s') : Kept s s' ((k, mode) :: rest) := by
  cases awaits : context.awaits with
  | nil => exact ended_kept (step_runtime_returns inv found point awaits taken)
  | cons frame outer =>
      simp only [runReturn, awaits, Option.some.injEq] at taken
      subst taken
      exact stays_kept (step_await_returns inv found point awaits)

-- The end of a handler, for a task that is no combinator. The state `handled` is the one behind
-- its `cancel()`.
theorem keeps_handled (inv : Invariant s ((k, mode) :: rest)) (found : s.contexts k = some context)
    (point : context.point = .throwing)
    (plain : ∀ which children, (s.tasks context.inner).kind ≠ .group which children)
    {handled : State} (only : handled = { s with tasks := handled.tasks, armed := handled.armed })
    (tasks : handled.tasks = (s.setStatus context.inner .canceled).tasks)
    (armed : ∀ t, handled.armed t = true → s.armed t = true ∧ t ≠ context.inner)
    (taken : cancelReturn handled k context
      (if context.awaits = [] then .runtime else .await) = some s') :
    Kept s s' ((k, mode) :: rest) := by
  have placed := placed_of inv found
  simp only [Placed, point] at placed
  obtain ⟨unprotected, -, way⟩ := placed
  cases awaits : context.awaits with
  | nil =>
      rw [if_pos awaits] at taken
      exact ended_kept (step_runtime_throws inv found taken point awaits plain only tasks armed)
  | cons frame outer =>
      rw [if_neg (by simp [awaits])] at taken
      simp only [cancelReturn, awaits, Option.some.injEq] at taken
      subst taken
      have awake := signal_false inv found (Or.inr (by simp [point]))
      refine stays_kept (step_await_rethrows inv found awaits only tasks armed awake
        (fun _ l other there => no_adoptee_plain inv found plain there) unprotected ?_)
      rcases way with cancelling | ⟨live, -, doomed⟩
      · exact Or.inl cancelling
      · exact Or.inr ⟨live, doomed⟩

theorem keeps_throwing (inv : Invariant s ((k, mode) :: rest))
    (found : s.contexts k = some context) (point : context.point = .throwing)
    (taken : runThrow s k context = some s') : Kept s s' ((k, mode) :: rest) := by
  unfold runThrow cancelTask at taken
  have same : ((s.setStatus context.inner .canceled).tasks context.inner).kind =
      (s.tasks context.inner).kind := by
    rw [State.setStatus, setTask_self]
  rw [same] at taken
  cases kind : (s.tasks context.inner).kind with
  | user =>
      rw [kind] at taken
      have calm := disarmed inv found (Or.inr (Or.inr (by simp [kind])))
      refine keeps_handled inv found point (by simp [kind]) rfl rfl (fun t armed => ⟨armed, ?_⟩)
        taken
      rintro rfl
      change s.armed context.inner = true at armed
      rw [calm] at armed
      cases armed
  | event =>
      rw [kind] at taken
      dsimp only at taken
      refine keeps_handled inv found point (by simp [kind]) ?_ ?_ (fun t armed => ?_) taken
      · rfl
      · rfl
      change Function.update s.armed context.inner false t = true at armed
      by_cases here : t = context.inner
      · rw [here, Function.update_self] at armed
        cases armed
      · rw [Function.update_of_ne here] at armed
        exact ⟨armed, here⟩
  | group which children =>
      rw [kind] at taken
      cases taken
      exact stays_kept (step_throwing_group inv found point kind)

theorem keeps_adopting (inv : Invariant s ((k, mode) :: rest))
    (found : s.contexts k = some context) (point : context.point = .enter) {which : Combinator}
    {children : List Nat} (kind : (s.tasks context.inner).kind = .group which children)
    (nodup : children.Nodup) (unclaimed : ∀ t ∈ children, Unclaimed s t)
    (taken : runGroup s k context children = some s') : Kept s s' ((k, mode) :: rest) := by
  have owner := ((inv.sound k context found).owned _ (inner_mem context)).2
  unfold runGroup at taken
  rw [owner] at taken
  cases result : adoptChildren s (some k) children with
  | none =>
      rw [result] at taken
      cases taken
  | some adopted =>
      obtain ⟨state, all⟩ := adopted
      obtain ⟨first, others, split, rfl, fit, whole⟩ := adoptChildren_spec result
      rw [result] at taken
      cases all with
      | true =>
          cases taken
          have same : children = first := by
            rw [split, whole rfl, List.append_nil]
          subst same
          exact stays_kept (step_adopts_all inv found point kind nodup fit unclaimed)
      | false =>
          cases taken
          exact stays_kept (step_adopts_unready inv found point (fun t member => (fit t member).2)
            fun t member => unclaimed t (by simp [split, member]))

theorem keeps_coroutine (inv : Invariant s ((k, mode) :: rest))
    (found : s.contexts k = some context)
    (distinct : context.point = .enter → (childrenOf (s.tasks context.inner).kind).Nodup ∧
      ∀ t ∈ childrenOf (s.tasks context.inner).kind, ¬Claimed s t)
    (atOnce : delays (childrenOf (s.tasks context.inner).kind) context.point = false)
    (taken : coroutineStep s k context = some s') : Kept s s' ((k, mode) :: rest) := by
  unfold coroutineStep at taken
  split at taken
  · rename_i point kind
    cases taken
    exact stays_kept (step_enter_user inv found point kind)
  · rename_i which children point kind
    obtain ⟨nodup, free⟩ := distinct point
    rw [kind] at nodup free
    exact keeps_adopting inv found point kind nodup (fun t member => unclaimed_of inv (free t member))
      taken
  · rename_i point
    cases taken
    exact stays_kept (step_started_user inv found point)
  · rename_i point
    exact keeps_yielded inv found point taken
  · rename_i point
    exact keeps_returning inv found point taken
  · rename_i point
    exact keeps_throwing inv found point taken
  · rename_i which children kind _ _ _ _ _
    rw [kind] at atOnce
    cases point : context.point with
    | starting i count =>
        rw [point] at taken
        exact keeps_starting inv found point kind taken
    | started i count =>
        rw [point] at taken
        exact keeps_started inv found point kind taken
    | waiting count =>
        rw [point] at taken
        exact keeps_waiting inv found point kind taken
    | cancelLoop i unsupport caller =>
        rw [point] at taken
        exact keeps_cancelRound inv found point kind atOnce taken
    | canceling i unsupport caller =>
        rw [point] at taken
        cases taken
        exact stays_kept (step_canceling inv found point)
    | cancelWait unsupport caller =>
        rw [point] at taken
        exact keeps_cancelWait inv found point taken
    | goal =>
        rw [point] at taken
        cases taken
        have placed := placed_of inv found
        simp only [Placed, point] at placed
        exact stays_kept (step_return inv found placed.1 (by simp [point, opened]) (by simp [point]))
    | _ =>
        rw [point] at taken
        cases taken
  · cases taken

end Library

section Client

variable {s s' : State} {nest : Nest} {label : Label}

theorem keeps_objects (inv : Invariant s nest) (regular : Disciplined s label)
    (elsewhere : ∀ l other, s.contexts l = some other → other.point ≠ .goal)
    (taken : objectStep s label = some s') : Invariant s' nest := by
  unfold objectStep at taken
  split at taken
  · cases taken
  · exact inv_objects inv (objects_construct inv taken) elsewhere
  · rename_i target
    split at taken
    · cases taken
      obtain ⟨alone, free⟩ := regular
      exact inv_objects inv (objects_destroy inv (idle_of inv alone) (unclaimed_of inv free))
        elsewhere
    · cases taken
  · rename_i target
    split at taken
    · cases taken
      refine inv_objects inv ?_ elsewhere
      exact objects_write inv (idle_of inv regular) (fun _ => ⟨rfl, rfl, rfl, rfl⟩)
        (Or.inr fun _ => ⟨rfl, rfl⟩) fun _ => rfl
    · cases taken
  · cases taken

variable {k target : Nat} {mode : Mode} {rest : Nest} {context : Context}

theorem keeps_await (inv : Invariant s ((k, mode) :: rest)) (found : s.contexts k = some context)
    (user : context.point = .user) (regular : Disciplined s (.await target))
    (caller : (s.tasks target).status = .ready ∨ (s.tasks target).status = .limited →
      s.current = some context.inner)
    (taken : await s k context target = some s') : Invariant s' ((k, mode) :: rest) := by
  obtain ⟨alone, free⟩ := regular
  have idle := idle_of inv alone
  by_cases unstarted : (s.tasks target).status = .ready ∨ (s.tasks target).status = .limited
  · cases live : s.live target with
    | false => simp [await, live] at taken
    | true =>
        have apart : context.inner ≠ target := fun same =>
          idle k context found (same ▸ inner_mem context)
        rw [await_accepts (caller unstarted) apart live unstarted] at taken
        cases taken
        exact step_await_calls inv found user live unstarted idle
          (unclaimed_of inv (free unstarted))
  · -- refused: only the id has been given away
    rw [not_or] at unstarted
    unfold await at taken
    split at taken
    · cases taken
    · dsimp only at taken
      split at taken
      · cases taken
      · cases taken
        refine inv_objects inv ?_ (no_goal inv found (by simp [user]))
        exact objects_write inv idle (fun _ => ⟨rfl, rfl, rfl, rfl⟩)
          (Or.inr fun _ => ⟨rfl, rfl⟩) fun ready => absurd ready unstarted.1

theorem keeps_start (inv : Invariant s ((k, mode) :: rest)) (found : s.contexts k = some context)
    (user : context.point = .user) (regular : Disciplined s (.start target))
    (taken : start s k context target = some s') : Kept s s' ((k, mode) :: rest) := by
  obtain ⟨alone, free⟩ := regular
  obtain ⟨parent, member, current⟩ := inv.current k context inv.exec found
  have owner := ((inv.sound k context found).owned parent member).2
  cases live : s.live target with
  | false => simp [start, live] at taken
  | true =>
      by_cases ready : (s.tasks target).status = .ready
      · obtain ⟨j, uid, managed, empty, started⟩ :=
          step_starts inv found user live ready (unclaimed_of inv free)
        have apart : j ≠ k := by
          rintro rfl
          rw [found] at empty
          cases empty
        have accepted : start s k context target = swapRunning ((s.setTask target fun task =>
            { task with blockTo := some k, finishTo := none }).moveTo k context
              (.inStart target)) (some k) (some j) := by
          simp [start, live, current, ready, owner, uid]
        rw [accepted, swapRunning_spawns (by exact inv.exec.symm)
          (by exact (Function.update_of_ne apart _ _).trans empty) (by exact managed)
          (by exact live)] at taken
        cases taken
        refine ⟨_, started, .pushes j _ _ fun next moved => Or.inl ?_⟩
        rw [spawns_here] at moved
        cases moved
        rfl
      · have refused : start s k context target =
            some { s with live := Function.update s.live target false } := by
          simp [start, live, current, ready]
        rw [refused] at taken
        cases taken
        refine stays_kept (inv_objects inv ?_ (no_goal inv found (by simp [user])))
        exact objects_destroy inv (idle_of inv alone) (unclaimed_of inv free)

theorem keeps_user (inv : Invariant s ((k, mode) :: rest)) (found : s.contexts k = some context)
    (user : context.point = .user) (regular : Regular s label)
    (taken : userStep s k context label = some s') : Kept s s' ((k, mode) :: rest) := by
  have shown : context ∈ running s := by
    rw [running, inv.exec]
    exact found
  obtain ⟨disciplined, caller, -⟩ := regular
  unfold userStep at taken
  split at taken
  · exact stays_kept (keeps_await inv found user disciplined
      (fun unstarted => caller unstarted context shown) taken)
  · exact keeps_start inv found user disciplined taken
  · cases taken
    have placed := placed_of inv found
    simp only [Placed, user] at placed
    exact stays_kept (step_return inv found placed.1 (by simp [user, opened]) (by simp [user]))
  · exact stays_kept (keeps_objects inv disciplined (no_goal inv found (by simp [user])) taken)

theorem keeps_context (inv : Invariant s ((k, mode) :: rest))
    (found : s.contexts k = some context) (regular : Regular s label)
    (taken : contextStep s k context label = some s') : Kept s s' ((k, mode) :: rest) := by
  have shown : context ∈ running s := by
    rw [running, inv.exec]
    exact found
  unfold contextStep at taken
  split at taken
  · obtain ⟨disciplined, -, atOnce⟩ := regular
    exact keeps_coroutine inv found (disciplined context shown) (atOnce context shown) taken
  · rename_i point kind
    have placed := placed_of inv found
    simp only [Placed, point] at placed
    obtain ⟨token, rfl⟩ := placed.1
    exact keeps_yield inv found taken (step_blocks inv found point kind)
  · rename_i point kind
    cases taken
    have placed := placed_of inv found
    simp only [Placed, point] at placed
    exact stays_kept (step_return inv found placed.1 (by simp [point, opened]) (by simp [point]))
  · rename_i target point kind
    exact stays_kept (keeps_objects inv regular.1 (no_goal inv found (by simp [point])) taken)
  · rename_i point kind
    exact keeps_user inv found point regular taken
  · cases taken

theorem keeps_loop (inv : Invariant s []) (regular : Regular s label)
    (taken : loopStep s label = some s') : Kept s s' [] := by
  have elsewhere : ∀ l other, s.contexts l = some other → other.point ≠ .goal := by
    intro l other there
    obtain ⟨at_, point⟩ := placed_parked (inv.sound l other there).placed
    simp [point]
  unfold loopStep at taken
  split at taken
  · rename_i t
    split at taken
    · rename_i pending
      obtain ⟨p, context, uid, there, resumed⟩ := step_event inv pending.1
      rw [uid, swapRunning_back (by exact inv.exec.symm) fun q same => by
        cases same
        exact ⟨context, there⟩] at taken
      cases taken
      refine ⟨_, resumed, .pushes p _ _ fun next moved => Or.inr ?_⟩
      exact placed_parked (inv.sound p next moved).placed
    · cases taken
  · rename_i t
    split at taken
    · rename_i allowed
      obtain ⟨ready, free⟩ := regular.1
      obtain ⟨j, uid, managed, empty, started⟩ :=
        step_cocoflow inv allowed.2 ready (unclaimed_of inv free) elsewhere
      rw [uid, swapRunning_spawns (by exact inv.exec.symm) (by exact empty) (by exact managed)
        (by exact allowed.2)] at taken
      cases taken
      refine ⟨_, started, .pushes j _ _ fun next moved => Or.inl ?_⟩
      rw [spawns_here] at moved
      cases moved
      rfl
    · cases taken
  · split at taken
    · exact stays_kept (keeps_objects inv regular.1 elsewhere taken)
    · cases taken

/-- The step lemma: proper nesting survives every regular step. -/
theorem step_kept (inv : Invariant s nest) (regular : Regular s label)
    (taken : step s label = some s') : Kept s s' nest := by
  have exec := inv.exec
  unfold step at taken
  cases nest with
  | nil =>
      change s.exec = none at exec
      rw [exec] at taken
      exact keeps_loop inv regular taken
  | cons entry rest =>
      obtain ⟨k, mode⟩ := entry
      change s.exec = some k at exec
      rw [exec] at taken
      dsimp only at taken
      cases found : s.contexts k with
      | none =>
          rw [found] at taken
          cases taken
      | some context =>
          rw [found] at taken
          exact keeps_context inv found regular taken

end Client

section Runs

variable {s s' : State} {labels : List Label}

theorem initial_invariant : Invariant {} [] where
  nested := trivial
  exec := rfl
  sound := by simp
  fresh := by simp
  unused := by simp
  running := by simp
  bounded := by simp
  done := by simp
  past := by simp
  armed := by simp
  signal := by simp
  current := by simp

/-- The run lemma: along a regular schedule control is properly nested. -/
theorem nested_along (along : Along step Regular {} labels)
    (run : replay step {} labels = some s) : ∃ nest, Invariant s nest := by
  refine replay_invariant (fun state => ∃ nest, Invariant state nest) ?_
    ⟨[], initial_invariant⟩ along run
  intro state label next ⟨nest, inv⟩ regular taken
  obtain ⟨after, kept, -⟩ := step_kept inv regular taken
  exact ⟨after, kept⟩

end Runs

end Cocoflow.SchedulerRuns
