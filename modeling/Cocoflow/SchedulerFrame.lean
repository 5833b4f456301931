import Mathlib.Logic.Function.Basic
import Mathlib.Data.List.Basic
import Cocoflow.SchedulerRuns

/-!
What a step leaves alone. A coroutine that does not run keeps its context, a coroutine that
is taken into use begins at `enter`, and the status child_unready is given only by a
combinator that finds one of its children unready. None of this depends on the order of the
steps before, so it holds without the invariant of nested control.
-/

namespace Cocoflow.SchedulerFrame

open LabelledRuns Scheduler SchedulerNest SchedulerLocal SchedulerSteps SchedulerObjects
open SchedulerRuns

/-- What a step of coroutine `k` (none: of the event loop) leaves alone, with the tasks that
end child_unready in it. -/
structure Leaves (k : Option Nat) (refuses : Nat → Prop) (s s' : State) : Prop where
  contexts : ∀ l other, some l ≠ k → s.contexts l = some other → s'.contexts l = some other
  enters : ∀ l other, some l ≠ k → s.contexts l = none → s'.contexts l = some other →
    other.point = .enter
  allocated : s.next ≤ s'.next
  kind : ∀ t < s.next, (s'.tasks t).kind = (s.tasks t).kind
  unready : ∀ t, (s'.tasks t).status = .childUnready →
    (s.tasks t).status = .childUnready ∨ refuses t

section Rules

variable {k : Option Nat} {refuses : Nat → Prop} {s middle s' : State}

theorem leaves_trans (first : Leaves k refuses s middle) (second : Leaves k refuses middle s') :
    Leaves k refuses s s' where
  contexts l other apart there := second.contexts l other apart (first.contexts l other apart there)
  enters l other apart empty there := by
    cases between : middle.contexts l with
    | none => exact second.enters l other apart between there
    | some early =>
        have same := (second.contexts l early apart between).symm.trans there
        rw [← Option.some.inj same]
        exact first.enters l early apart empty between
  allocated := Nat.le_trans first.allocated second.allocated
  kind t bound := by
    rw [second.kind t (Nat.lt_of_lt_of_le bound first.allocated), first.kind t bound]
  unready t ended := by
    rcases second.unready t ended with before | refused
    · exact first.unready t before
    · exact Or.inr refused

theorem leaves_tasks (contexts : s'.contexts = s.contexts) (next : s'.next = s.next)
    (kind : ∀ t, (s'.tasks t).kind = (s.tasks t).kind)
    (unready : ∀ t, (s'.tasks t).status = .childUnready →
      (s.tasks t).status = .childUnready ∨ refuses t) : Leaves k refuses s s' where
  contexts l other _ there := by
    rw [contexts]
    exact there
  enters l other _ empty there := by
    rw [contexts, empty] at there
    cases there
  allocated := Nat.le_of_eq next.symm
  kind t _ := kind t
  unready := unready

theorem leaves_same (contexts : s'.contexts = s.contexts) (next : s'.next = s.next)
    (tasks : s'.tasks = s.tasks) : Leaves k refuses s s' := by
  refine leaves_tasks contexts next (fun t => by rw [tasks]) fun t ended => Or.inl ?_
  rw [tasks] at ended
  exact ended

theorem leaves_current (current : Option Nat) : Leaves k refuses s { s with current := current } :=
  leaves_same rfl rfl rfl

theorem leaves_setTask {t : Nat} {write : Task → Task}
    (kind : (write (s.tasks t)).kind = (s.tasks t).kind)
    (unready : (write (s.tasks t)).status = .childUnready →
      (s.tasks t).status = .childUnready ∨ refuses t) : Leaves k refuses s (s.setTask t write) := by
  refine leaves_tasks rfl rfl (fun other => ?_) fun other ended => ?_
  · by_cases same : other = t
    · subst same
      rw [setTask_self]
      exact kind
    · rw [setTask_other _ _ _ same]
  · by_cases same : other = t
    · subst same
      rw [setTask_self] at ended
      exact unready ended
    · rw [setTask_other _ _ _ same] at ended
      exact Or.inl ended

theorem leaves_setStatus {t : Nat} {status : Status} (ends : status ≠ .childUnready) :
    Leaves k refuses s (s.setStatus t status) :=
  leaves_setTask rfl fun ended => absurd ended ends

theorem leaves_complete (t : Nat) : Leaves k refuses s (s.complete t) :=
  leaves_trans (leaves_setStatus (by simp))
    (leaves_same rfl rfl rfl)

theorem leaves_setContext {id : Nat} (context : Context) :
    Leaves (some id) refuses s (s.setContext id context) := by
  refine ⟨fun l other apart there => ?_, fun l other apart empty there => ?_, Nat.le_refl _,
    fun _ _ => rfl, fun _ ended => Or.inl ended⟩
  · change Function.update s.contexts id _ l = some other
    rw [Function.update_of_ne (fun same => apart (by rw [same]))]
    exact there
  · change Function.update s.contexts id _ l = some other at there
    rw [Function.update_of_ne (fun same => apart (by rw [same])), empty] at there
    cases there

theorem leaves_moveTo {id : Nat} (context : Context) (point : Point) :
    Leaves (some id) refuses s (s.moveTo id context point) :=
  leaves_setContext _

theorem leaves_swapRunning {source next : Option Nat} (taken : swapRunning s source next = some s') :
    Leaves k refuses s s' := by
  unfold swapRunning at taken
  split at taken
  · cases taken
  · split at taken
    · cases taken
      exact leaves_same rfl rfl rfl
    · rename_i id
      split at taken
      · cases taken
        exact leaves_same rfl rfl rfl
      · cases taken
      · rename_i t free _
        split at taken
        · cases taken
          have marked : Leaves k refuses s (s.setStatus t .running) := leaves_setStatus (by simp)
          refine ⟨fun l other apart there => ?_, fun l other apart empty there => ?_,
            Nat.le_refl _, marked.kind, marked.unready⟩
          · have apart : l ≠ id := by
              rintro rfl
              rw [free] at there
              cases there
            exact (Function.update_of_ne apart _ _).trans there
          · change Function.update s.contexts id _ l = some other at there
            by_cases same : l = id
            · subst same
              rw [Function.update_self] at there
              cases there
              rfl
            · rw [Function.update_of_ne same, empty] at there
              cases there
        · cases taken

end Rules

section Functions

variable {refuses : Nat → Prop} {s s' : State} {k : Nat} {context : Context}

theorem leaves_taskYield {at_ : YieldAt} (taken : taskYield s k context at_ = some s') :
    Leaves (some k) refuses s s' :=
  leaves_trans (leaves_trans (leaves_setTask rfl Or.inl) (leaves_moveTo _ _))
    (leaves_swapRunning taken)

theorem leaves_runtimeFinish (taken : runtimeFinish s k context = some s') :
    Leaves (some k) refuses s s' := by
  have left : ∀ after : State, after.contexts = Function.update s.contexts k none →
      after.next = s.next → after.tasks = s.tasks → Leaves (some k) refuses s after := by
    intro after contexts next tasks
    refine ⟨fun l other apart there => ?_, fun l other apart empty there => ?_,
      Nat.le_of_eq next.symm, fun t _ => by rw [tasks], fun t ended => Or.inl (by rw [← tasks]; exact ended)⟩
    · rw [contexts, Function.update_of_ne (fun same => apart (by rw [same]))]
      exact there
    · rw [contexts, Function.update_of_ne (fun same => apart (by rw [same])), empty] at there
      cases there
  unfold runtimeFinish at taken
  dsimp only at taken
  split at taken
  · refine leaves_trans ?_ (leaves_swapRunning taken)
    exact left _ rfl rfl rfl
  · refine leaves_trans ?_ (leaves_swapRunning taken)
    exact left _ rfl rfl rfl

theorem leaves_await {target : Nat} (taken : await s k context target = some s') :
    Leaves (some k) refuses s s' := by
  unfold await at taken
  split at taken
  · cases taken
  · dsimp only at taken
    have given : Leaves (some k) refuses s (s.setTask target fun task => { task with uid := none }) :=
      leaves_setTask rfl Or.inl
    split at taken
    · cases taken
    · split at taken
      · cases taken
        exact given
      · cases taken
        refine leaves_trans (leaves_trans ?_ (leaves_current _)) (leaves_setContext _)
        refine leaves_trans (leaves_trans given ?_) (leaves_setTask rfl Or.inl)
        exact leaves_setTask rfl fun ended => by cases ended

theorem leaves_awaitReturn (frame : Frame) (outer : List Frame) :
    Leaves (some k) refuses s (awaitReturn s k context frame outer) := by
  refine leaves_trans (leaves_trans ?_ (leaves_current _)) (leaves_setContext _)
  refine leaves_trans (leaves_trans ?_ (leaves_setTask rfl Or.inl))
    (leaves_setTask rfl Or.inl)
  split
  · exact leaves_complete _
  · exact leaves_same rfl rfl rfl

theorem leaves_awaitRethrow (frame : Frame) (outer : List Frame) :
    Leaves (some k) refuses s (awaitRethrow s k context frame outer) := by
  refine leaves_trans (leaves_trans ?_ (leaves_current _)) (leaves_setContext _)
  exact leaves_trans (leaves_setTask rfl Or.inl)
    (leaves_setTask rfl Or.inl)

theorem leaves_start {target : Nat} (taken : start s k context target = some s') :
    Leaves (some k) refuses s s' := by
  unfold start at taken
  split at taken
  · cases taken
  · split at taken
    · cases taken
    · split at taken
      · cases taken
        exact leaves_same rfl rfl rfl
      · refine leaves_trans (leaves_trans ?_ (leaves_moveTo _ _)) (leaves_swapRunning taken)
        exact leaves_setTask rfl Or.inl

theorem leaves_cancelReturn {caller : CancelCaller}
    (taken : cancelReturn s k context caller = some s') : Leaves (some k) refuses s s' := by
  unfold cancelReturn at taken
  split at taken
  · cases taken
    exact leaves_moveTo _ _
  · cases taken
    exact leaves_moveTo _ _
  · split at taken
    · cases taken
    · cases taken
      exact leaves_awaitRethrow _ _
  · exact leaves_runtimeFinish taken
  · cases taken

theorem leaves_cancelRound {children : List Nat} {i unsupport : Nat} {caller : CancelCaller}
    (taken : cancelRound s k context children i unsupport caller = some s') :
    Leaves (some k) refuses s s' := by
  unfold cancelRound at taken
  split at taken
  · split at taken
    · cases taken
    · split at taken
      · split at taken
        · cases taken
        · cases taken
          refine leaves_trans ?_ (leaves_moveTo _ _)
          split
          · exact leaves_setStatus (by simp)
          · exact leaves_same rfl rfl rfl
        · rename_i child _ _ _ _ _
          refine leaves_trans (leaves_trans ?_ (leaves_moveTo _ _)) (leaves_swapRunning taken)
          have marked : Leaves (some k) refuses s (s.setStatus child .canceled) :=
            leaves_setStatus (by simp)
          exact leaves_trans marked (leaves_same rfl rfl rfl)
      · cases taken
        exact leaves_moveTo _ _
  · split at taken
    · exact leaves_cancelReturn taken
    · cases taken
      exact leaves_trans (leaves_setTask rfl Or.inl) (leaves_moveTo _ _)

theorem leaves_cancelTask {caller : CancelCaller}
    (taken : cancelTask s k context caller = some s') : Leaves (some k) refuses s s' := by
  unfold cancelTask at taken
  split at taken
  · exact leaves_cancelReturn taken
  · refine leaves_trans ?_ (leaves_cancelReturn taken)
    exact leaves_same rfl rfl rfl
  · cases taken
    exact leaves_moveTo _ _

theorem leaves_runReturn (taken : runReturn s k context = some s') : Leaves (some k) refuses s s' := by
  unfold runReturn at taken
  split at taken
  · cases taken
    exact leaves_awaitReturn _ _
  · split at taken
    · exact leaves_trans (leaves_complete _) (leaves_runtimeFinish taken)
    · exact leaves_runtimeFinish taken

theorem leaves_yieldReturn {at_ : YieldAt} (taken : yieldReturn s k context at_ = some s') :
    Leaves (some k) refuses s s' := by
  have consumed : Leaves (some k) refuses s { s with signal := false } := leaves_same rfl rfl rfl
  unfold yieldReturn at taken
  dsimp only at taken
  split at taken
  · split at taken
    · have interrupted : Leaves (some k) refuses s
          ({ s with signal := false }.setStatus context.inner .canceled) :=
        leaves_trans consumed (leaves_setStatus (by simp))
      split at taken
      · cases taken
        exact leaves_trans interrupted (leaves_setContext _)
      · cases taken
      · cases taken
      · cases taken
      · cases taken
        exact leaves_trans interrupted (leaves_moveTo _ _)
    · split at taken
      · exact leaves_trans consumed (leaves_cancelTask taken)
      · exact leaves_trans consumed (leaves_cancelTask taken)
  · split at taken
    · cases taken
      exact leaves_moveTo _ _
    · cases taken
      exact leaves_moveTo _ _
    · split at taken
      · cases taken
        exact leaves_moveTo _ _
      · cases taken
        exact leaves_trans (leaves_setTask rfl Or.inl) (leaves_moveTo _ _)
      · cases taken

theorem leaves_groupStep {which : Combinator} {children : List Nat} {point : Point}
    (taken : groupStep s k context which children point = some s') : Leaves (some k) refuses s s' := by
  unfold groupStep at taken
  split at taken
  · split at taken
    · cases taken
      exact leaves_moveTo _ _
    · split at taken
      · exact leaves_trans (leaves_moveTo _ _) (leaves_swapRunning taken)
      · cases taken
  · split at taken
    · cases taken
    · split at taken
      · cases taken
      · split at taken
        · split at taken
          · cases taken
            exact leaves_moveTo _ _
          · cases taken
            exact leaves_trans (leaves_setTask rfl Or.inl) (leaves_moveTo _ _)
        · cases taken
          exact leaves_moveTo _ _
  · split at taken
    · split at taken
      · cases taken
        exact leaves_moveTo _ _
      · exact leaves_taskYield taken
    · split at taken
      · exact leaves_taskYield taken
      · cases taken
        exact leaves_moveTo _ _
  · exact leaves_cancelRound taken
  · cases taken
    exact leaves_moveTo _ _
  · split at taken
    · exact leaves_cancelReturn taken
    · exact leaves_taskYield taken
  · cases taken
    exact leaves_moveTo _ _
  · cases taken

theorem leaves_objectStep {k : Option Nat} {label : Label}
    (taken : objectStep s label = some s') : Leaves k refuses s s' := by
  -- a constructor writes only behind the tasks allocated before
  have built : ∀ task : Task, task.status ≠ .childUnready → ∀ after : State,
      after.contexts = s.contexts → after.next = s.next + 1 →
      after.tasks = Function.update s.tasks s.next task → Leaves k refuses s after := by
    intro task status after contexts next tasks
    refine ⟨fun l other _ there => by rw [contexts]; exact there, fun l other _ empty there => ?_,
      by omega, fun t bound => ?_, fun t ended => ?_⟩
    · rw [contexts, empty] at there
      cases there
    · rw [tasks, Function.update_of_ne (by omega)]
    · rw [tasks] at ended
      by_cases same : t = s.next
      · subst same
        rw [Function.update_self] at ended
        exact absurd ended status
      · rw [Function.update_of_ne same] at ended
        exact Or.inl ended
  unfold objectStep at taken
  split at taken
  · cases taken
  · unfold construct at taken
    split at taken
    · cases taken
      exact built _ (by simp) _ rfl rfl rfl
    · split at taken
      · cases taken
      · cases taken
        exact built _ (by simp) _ rfl rfl rfl
  · split at taken
    · cases taken
      exact leaves_same rfl rfl rfl
    · cases taken
  · split at taken
    · cases taken
      exact leaves_setTask rfl Or.inl
    · cases taken
  · cases taken

theorem adoptChildren_stops {uid : Option Nat} {children : List Nat}
    (adopted : adoptChildren s uid children = some (s', false)) :
    ∃ t ∈ children, (s.tasks t).status ≠ .ready := by
  induction children generalizing s with
  | nil => cases adopted
  | cons child others ih =>
      unfold adoptChildren at adopted
      split at adopted
      · cases adopted
      · split at adopted
        · rename_i unready
          exact ⟨child, by simp, unready⟩
        · obtain ⟨t, member, unready⟩ := ih adopted
          refine ⟨t, by simp [member], ?_⟩
          by_cases same : t = child
          · subst same
            rw [setTask_self] at unready
            exact unready
          · rw [setTask_other _ _ _ same] at unready
            exact unready

theorem leaves_runGroup {children : List Nat}
    (refused : (∃ t ∈ children, (s.tasks t).status ≠ .ready) → refuses context.inner)
    (taken : runGroup s k context children = some s') : Leaves (some k) refuses s s' := by
  unfold runGroup at taken
  cases result : adoptChildren s (s.tasks context.inner).uid children with
  | none =>
      rw [result] at taken
      cases taken
  | some adopted =>
      obtain ⟨state, all⟩ := adopted
      obtain ⟨first, -, -, rfl, -, -⟩ := adoptChildren_spec result
      have linked : Leaves (some k) refuses s (adopts s (s.tasks context.inner).uid first) := by
        refine leaves_tasks rfl rfl (fun t => (adopts_fields first t).1) fun t ended => Or.inl ?_
        rw [(adopts_fields first t).2.1] at ended
        exact ended
      rw [result] at taken
      cases all with
      | true =>
          cases taken
          exact leaves_trans linked (leaves_moveTo _ _)
      | false =>
          cases taken
          refine leaves_trans (leaves_trans linked ?_) (leaves_moveTo _ _)
          exact leaves_setTask rfl fun _ => Or.inr (refused (adoptChildren_stops result))

end Functions

def Refuses (s : State) (t : Nat) : Prop :=
  ∃ context ∈ running s, context.point = .enter ∧ context.inner = t ∧
    ∃ child ∈ childrenOf (s.tasks t).kind, (s.tasks child).status ≠ .ready

section Steps

variable {s s' : State} {label : Label}

/-- The step lemma of this module. -/
theorem step_leaves (taken : step s label = some s') : Leaves s.exec (Refuses s) s s' := by
  unfold step at taken
  cases exec : s.exec with
  | none =>
      rw [exec] at taken
      dsimp only [loopStep] at taken
      split at taken
      · split at taken
        · refine leaves_trans ?_ (leaves_swapRunning taken)
          exact leaves_same rfl rfl rfl
        · cases taken
      · rename_i t
        split at taken
        · refine leaves_trans ?_ (leaves_swapRunning taken)
          have linked : Leaves none (Refuses s) s (s.setTask t fun task =>
              { task with blockTo := none, finishTo := none }) := leaves_setTask rfl Or.inl
          exact leaves_trans linked (leaves_same rfl rfl rfl)
        · cases taken
      · split at taken
        · exact leaves_objectStep taken
        · cases taken
  | some k =>
      rw [exec] at taken
      dsimp only at taken
      cases found : s.contexts k with
      | none =>
          rw [found] at taken
          cases taken
      | some context =>
          have shown : context ∈ running s := by
            rw [running, exec]
            exact found
          rw [found] at taken
          dsimp only [contextStep] at taken
          split at taken
          · unfold coroutineStep at taken
            split at taken
            · cases taken
              exact leaves_moveTo _ _
            · rename_i which children point kind
              refine leaves_runGroup (fun unready => ⟨context, shown, point, rfl, ?_⟩) taken
              rw [kind]
              exact unready
            · cases taken
              exact leaves_moveTo _ _
            · exact leaves_yieldReturn taken
            · exact leaves_runReturn taken
            · exact leaves_trans (leaves_setStatus (by simp)) (leaves_cancelTask taken)
            · exact leaves_groupStep taken
            · cases taken
          · refine leaves_trans ?_ (leaves_taskYield taken)
            exact leaves_same rfl rfl rfl
          · cases taken
            exact leaves_moveTo _ _
          · exact leaves_objectStep taken
          · unfold userStep at taken
            split at taken
            · exact leaves_await taken
            · exact leaves_start taken
            · cases taken
              exact leaves_moveTo _ _
            · exact leaves_objectStep taken
          · cases taken

end Steps

/-- A combinator is open behind a step of coroutine `k` only where it was open before, apart
from the step in which it takes in its children. -/
def Opens (s : State) (k : Nat) (context : Context) (s' : State) : Prop :=
  ∀ next, s'.contexts k = some next → opened next.point = true →
    next.inner = context.inner ∧ opened context.point = true ∨
      next.inner ∈ context.chain ∧
        ∀ which children, (s.tasks next.inner).kind ≠ .group which children

section Opening

variable {s x s' : State} {k : Nat} {context : Context}

theorem opens_moveTo {point : Point} (before : opened point = true → opened context.point = true) :
    Opens s k context (x.moveTo k context point) := by
  intro next there open_
  change Function.update x.contexts k _ k = some next at there
  rw [Function.update_self] at there
  cases there
  exact Or.inl ⟨moves_inner context point, before open_⟩

theorem opens_swapRunning {source target : Option Nat} (opens : Opens s k context x)
    (taken : swapRunning x source target = some s') : Opens s k context s' := by
  have leaves : Leaves none (fun _ => False) x s' := leaves_swapRunning taken
  intro next there open_
  cases before : x.contexts k with
  | none =>
      have enters := leaves.enters k next (by simp) before there
      rw [enters] at open_
      cases open_
  | some old =>
      have same := (leaves.contexts k old (by simp) before).symm.trans there
      cases same
      exact opens next before open_

theorem opens_left (left : x.contexts k = none) : Opens s k context x := by
  intro next there
  rw [left] at there
  cases there

theorem opens_still (found : s.contexts k = some context) (same : s'.contexts = s.contexts) :
    Opens s k context s' := by
  intro next there open_
  rw [same, found] at there
  cases there
  exact Or.inl ⟨rfl, open_⟩

theorem opens_outer {frame : Frame} {outer : List Frame} {point : Point}
    (user : ∀ t ∈ context.chain.tail, (s.tasks t).kind = .user)
    (awaits : context.awaits = frame :: outer) :
    Opens s k context (x.setContext k { context with awaits := outer, point := point }) := by
  intro next there _
  change Function.update x.contexts k _ k = some next at there
  rw [Function.update_self] at there
  cases there
  have tail : context.chain.tail = outer.map Frame.target ++ [context.base] := by
    simp [Context.chain, awaits]
  have member := inner_mem { context with awaits := outer, point := point }
  refine Or.inr ⟨List.mem_of_mem_tail (tail ▸ member), fun which children kind => ?_⟩
  rw [user _ (tail ▸ member)] at kind
  cases kind

theorem opens_taskYield {at_ : YieldAt} (before : opened (.yielded at_) = true →
    opened context.point = true) (taken : taskYield x k context at_ = some s') :
    Opens s k context s' :=
  opens_swapRunning (opens_moveTo before) taken

theorem opens_runtimeFinish (taken : runtimeFinish x k context = some s') :
    Opens s k context s' := by
  unfold runtimeFinish at taken
  dsimp only at taken
  split at taken
  · exact opens_swapRunning (opens_left (Function.update_self ..)) taken
  · exact opens_swapRunning (opens_left (Function.update_self ..)) taken

theorem opens_cancelReturn (user : ∀ t ∈ context.chain.tail, (s.tasks t).kind = .user)
    {caller : CancelCaller} (taken : cancelReturn x k context caller = some s') :
    Opens s k context s' := by
  unfold cancelReturn at taken
  split at taken
  · cases taken
    exact opens_moveTo (by simp [opened])
  · cases taken
    exact opens_moveTo (by simp [opened])
  · split at taken
    · cases taken
    · rename_i frame outer awaits
      cases taken
      exact opens_outer user awaits
  · exact opens_runtimeFinish taken
  · cases taken

theorem opens_cancelTask (user : ∀ t ∈ context.chain.tail, (s.tasks t).kind = .user)
    {caller : CancelCaller} (taken : cancelTask x k context caller = some s')
    (before : (∃ which children, (x.tasks context.inner).kind = .group which children) →
      opened context.point = true) : Opens s k context s' := by
  unfold cancelTask at taken
  split at taken
  · exact opens_cancelReturn user taken
  · exact opens_cancelReturn user taken
  · rename_i which children kind
    cases taken
    exact opens_moveTo fun _ => before ⟨which, children, kind⟩

theorem opens_groupStep (user : ∀ t ∈ context.chain.tail, (s.tasks t).kind = .user)
    {which : Combinator} {children : List Nat}
    (taken : groupStep s k context which children context.point = some s') :
    Opens s k context s' := by
  cases point : context.point with
  | starting i count =>
      simp only [point, groupStep] at taken
      split at taken
      · cases taken
        exact opens_moveTo fun _ => by simp [point, opened]
      · split at taken
        · exact opens_swapRunning (opens_moveTo fun _ => by simp [point, opened]) taken
        · cases taken
  | started i count =>
      simp only [point, groupStep] at taken
      split at taken
      · cases taken
      · split at taken
        · cases taken
        · split at taken
          · split at taken
            · cases taken
              exact opens_moveTo fun _ => by simp [point, opened]
            · cases taken
              exact opens_moveTo fun _ => by simp [point, opened]
          · cases taken
            exact opens_moveTo fun _ => by simp [point, opened]
  | waiting count =>
      simp only [point, groupStep] at taken
      split at taken
      · split at taken
        · cases taken
          exact opens_moveTo fun _ => by simp [point, opened]
        · exact opens_taskYield (fun _ => by simp [point, opened]) taken
      · split at taken
        · exact opens_taskYield (fun _ => by simp [point, opened]) taken
        · cases taken
          exact opens_moveTo fun _ => by simp [point, opened]
  | cancelLoop i unsupport caller =>
      simp only [point, groupStep, cancelRound] at taken
      split at taken
      · split at taken
        · cases taken
        · split at taken
          · split at taken
            · cases taken
            · cases taken
              exact opens_moveTo fun _ => by simp [point, opened]
            · exact opens_swapRunning (opens_moveTo fun _ => by simp [point, opened]) taken
          · cases taken
            exact opens_moveTo fun _ => by simp [point, opened]
      · split at taken
        · exact opens_cancelReturn user taken
        · cases taken
          exact opens_moveTo fun _ => by simp [point, opened]
  | canceling i unsupport caller =>
      simp only [point, groupStep] at taken
      cases taken
      exact opens_moveTo fun _ => by simp [point, opened]
  | cancelWait unsupport caller =>
      simp only [point, groupStep] at taken
      split at taken
      · exact opens_cancelReturn user taken
      · exact opens_taskYield (fun _ => by simp [point, opened]) taken
  | goal =>
      simp only [point, groupStep] at taken
      cases taken
      exact opens_moveTo (by simp [opened])
  | _ =>
      simp only [point, groupStep] at taken
      cases taken

theorem opens_runReturn (user : ∀ t ∈ context.chain.tail, (s.tasks t).kind = .user)
    (taken : runReturn s k context = some s') : Opens s k context s' := by
  unfold runReturn at taken
  split at taken
  · rename_i frame outer awaits
    cases taken
    exact opens_outer user awaits
  · split at taken
    · exact opens_runtimeFinish taken
    · exact opens_runtimeFinish taken

theorem opens_await (found : s.contexts k = some context) {target : Nat}
    (taken : await s k context target = some s') : Opens s k context s' := by
  unfold await at taken
  split at taken
  · cases taken
  · dsimp only at taken
    split at taken
    · cases taken
    · split at taken
      · cases taken
        exact opens_still found rfl
      · cases taken
        intro next there open_
        change Function.update s.contexts k _ k = some next at there
        rw [Function.update_self] at there
        cases there
        cases open_

theorem opens_start (found : s.contexts k = some context) {target : Nat}
    (taken : start s k context target = some s') : Opens s k context s' := by
  unfold start at taken
  split at taken
  · cases taken
  · split at taken
    · cases taken
    · split at taken
      · cases taken
        exact opens_still found rfl
      · exact opens_swapRunning (opens_moveTo (by simp [opened])) taken

theorem opens_runGroup {which : Combinator} {children : List Nat}
    (kind : (s.tasks context.inner).kind = .group which children)
    (taken : runGroup s k context children = some s') :
    Opens s k context s' ∨
      ∀ next, s'.contexts k = some next → next.inner = context.inner ∧
        ∀ t ∈ childrenOf (s.tasks context.inner).kind, (s.tasks t).status = .ready := by
  unfold runGroup at taken
  cases result : adoptChildren s (s.tasks context.inner).uid children with
  | none =>
      rw [result] at taken
      cases taken
  | some adopted =>
      obtain ⟨state, all⟩ := adopted
      rw [result] at taken
      cases all with
      | true =>
          cases taken
          obtain ⟨first, others, split, rfl, fit, whole⟩ := adoptChildren_spec result
          refine Or.inr fun next there => ?_
          change Function.update s.contexts k _ k = some next at there
          rw [Function.update_self] at there
          cases there
          refine ⟨moves_inner context _, fun t member => (fit t ?_).2⟩
          rw [kind] at member
          change t ∈ children at member
          rw [split, whole rfl, List.append_nil] at member
          exact member
      | false =>
          cases taken
          exact Or.inl (opens_moveTo (by simp [opened]))

variable {mode : Mode} {rest : Nest}

theorem opens_yieldReturn (inv : Invariant s ((k, mode) :: rest))
    (found : s.contexts k = some context) {at_ : YieldAt} (point : context.point = .yielded at_)
    (taken : yieldReturn s k context at_ = some s') : Opens s k context s' := by
  have user : ∀ t ∈ context.chain.tail, (s.tasks t).kind = .user := fun t member =>
    ((inv.sound k context found).outer t member).1
  -- a combinator yields only while it is open
  have before : at_ ≠ .event → opened context.point = true := by
    intro group
    cases at_ <;> simp_all [opened]
  have event : at_ = .event → (s.tasks context.inner).kind = .event := by
    intro same
    have placed := placed_of inv found
    rw [same] at point
    simpa only [Placed, point] using placed
  have group : (∃ which children, (s.tasks context.inner).kind = .group which children) →
      opened context.point = true := by
    rintro ⟨which, children, kind⟩
    apply before
    intro same
    rw [event same] at kind
    cases kind
  have throws : ∀ x : State, Opens s k context (x.moveTo k context .throwing) := by
    intro x
    by_cases same : at_ = .event
    · intro next there _
      change Function.update x.contexts k _ k = some next at there
      rw [Function.update_self] at there
      cases there
      rw [moves_inner]
      refine Or.inr ⟨inner_mem context, fun which children kind => ?_⟩
      rw [event same] at kind
      cases kind
    · exact opens_moveTo fun _ => before same
  unfold yieldReturn at taken
  dsimp only at taken
  split at taken
  · split at taken
    · split at taken
      · rename_i awaits
        cases taken
        exact opens_outer user awaits
      · cases taken
      · cases taken
      · cases taken
      · cases taken
        exact throws _
    · split at taken
      · exact opens_cancelTask user taken group
      · exact opens_cancelTask user taken group
  · split at taken
    · cases taken
      exact opens_moveTo (by simp [opened])
    · cases taken
      exact opens_moveTo fun _ => before (by simp)
    · split at taken
      · cases taken
        exact opens_moveTo fun _ => before (by simp)
      · cases taken
        exact opens_moveTo fun _ => before (by simp)
      · cases taken

/-- The step lemma about open combinators. -/
theorem step_opens {label : Label} (inv : Invariant s ((k, mode) :: rest))
    (found : s.contexts k = some context) (taken : step s label = some s') :
    Opens s k context s' ∨
      ∀ next, s'.contexts k = some next → next.inner = context.inner ∧
        ∀ t ∈ childrenOf (s.tasks context.inner).kind, (s.tasks t).status = .ready := by
  have exec : s.exec = some k := inv.exec
  have user : ∀ t ∈ context.chain.tail, (s.tasks t).kind = .user := fun t member =>
    ((inv.sound k context found).outer t member).1
  have objects : ∀ label, objectStep s label = some s' → Opens s k context s' := by
    intro label taken next there open_
    have leaves : Leaves none (fun _ => False) s s' := leaves_objectStep taken
    rw [leaves.contexts k context (by simp) found] at there
    cases there
    exact Or.inl ⟨rfl, open_⟩
  simp only [step, exec, found, contextStep] at taken
  split at taken
  · unfold coroutineStep at taken
    split at taken
    · cases taken
      exact Or.inl (opens_moveTo (by simp [opened]))
    · rename_i which children point kind
      exact opens_runGroup kind taken
    · cases taken
      exact Or.inl (opens_moveTo (by simp [opened]))
    · rename_i point
      exact Or.inl (opens_yieldReturn inv found point taken)
    · exact Or.inl (opens_runReturn user taken)
    · rename_i point
      exact Or.inl (opens_cancelTask user taken fun _ => by simp [point, opened])
    · exact Or.inl (opens_groupStep user taken)
    · cases taken
  · exact Or.inl (opens_taskYield (by simp [opened]) taken)
  · cases taken
    exact Or.inl (opens_moveTo (by simp [opened]))
  · exact Or.inl (objects _ taken)
  · unfold userStep at taken
    split at taken
    · exact Or.inl (opens_await found taken)
    · exact Or.inl (opens_start found taken)
    · cases taken
      exact Or.inl (opens_moveTo (by simp [opened]))
    · exact Or.inl (objects _ taken)
  · cases taken

end Opening

end Cocoflow.SchedulerFrame
