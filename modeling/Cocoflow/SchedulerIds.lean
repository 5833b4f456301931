import Mathlib.Logic.Function.Basic
import Mathlib.Data.List.Basic
import Cocoflow.SchedulerContracts

/-!
What a step does to the ids of the tasks and to the stacks of the coroutines. Most steps
touch neither. `__await` puts its target on the stack and lends it the id of its parent; both
of its ends take the id away again. The end of the loop body of `__task_runtime` gives the
stack up, and with it the task object if the task was started.
-/

namespace Cocoflow.SchedulerIds

open LabelledRuns Scheduler SchedulerNest SchedulerLocal SchedulerSteps SchedulerObjects
open SchedulerRuns SchedulerFrame SchedulerContracts

structure Same (s s' : State) : Prop where
  uid : ∀ t, (s'.tasks t).uid = (s.tasks t).uid
  manager : s'.manager = s.manager
  live : s'.live = s.live
  next : s'.next = s.next
  chains : ∀ l context, s.contexts l = some context → ∃ after, s'.contexts l = some after ∧
    after.base = context.base ∧ after.awaits = context.awaits

structure Left (s s' : State) (k : Nat) (context : Context) (frame : Frame)
    (outer : List Frame) : Prop where
  awaits : context.awaits = frame :: outer
  uid : ∀ t, (s'.tasks t).uid = if t = frame.target then none else (s.tasks t).uid
  manager : s'.manager = s.manager
  live : s'.live = s.live
  next : s'.next = s.next
  stack : ∃ after, s'.contexts k = some after ∧ after.base = context.base ∧ after.awaits = outer
  current : s'.current = some frame.parent
  reuse : (s'.tasks frame.parent).reuse = none

structure Finished (s s' : State) (k : Nat) (context : Context) : Prop where
  way : context.awaits = [] ∨ cancelCaller context.point = some .runtime
  uid : ∀ t, (s'.tasks t).uid = (s.tasks t).uid
  next : s'.next = s.next
  object : s'.live = s.live ∧ s'.manager = s.manager ∨
    s'.live = Function.update s.live context.base false ∧
      s'.manager = Function.update s.manager k none

/-- What a step of the library does on the running coroutine. -/
inductive Turnover (s s' : State) (k : Nat) (context : Context) : Prop where
  | same (kept : Same s s')
  | left (frame : Frame) (outer : List Frame) (ended : Left s s' k context frame outer)
  | finished (ended : Finished s s' k context)

section Rules

variable {s middle s' : State} {k : Nat} {context : Context}

theorem same_trans (first : Same s middle) (second : Same middle s') : Same s s' where
  uid t := (second.uid t).trans (first.uid t)
  manager := second.manager.trans first.manager
  live := second.live.trans first.live
  next := second.next.trans first.next
  chains l before there := by
    obtain ⟨between, there, base, awaits⟩ := first.chains l before there
    obtain ⟨after, there, base', awaits'⟩ := second.chains l between there
    exact ⟨after, there, base'.trans base, awaits'.trans awaits⟩

theorem same_tasks (uid : ∀ t, (s'.tasks t).uid = (s.tasks t).uid)
    (manager : s'.manager = s.manager) (live : s'.live = s.live) (next : s'.next = s.next)
    (contexts : s'.contexts = s.contexts) : Same s s' where
  uid := uid
  manager := manager
  live := live
  next := next
  chains l before there := by
    rw [contexts]
    exact ⟨before, there, rfl, rfl⟩

theorem same_setTask {t : Nat} {write : Task → Task}
    (uid : (write (s.tasks t)).uid = (s.tasks t).uid) : Same s (s.setTask t write) := by
  refine same_tasks (fun other => ?_) rfl rfl rfl rfl
  by_cases same : other = t
  · subst same
    rw [setTask_self]
    exact uid
  · rw [setTask_other _ _ _ same]

theorem same_setStatus (t : Nat) (status : Status) : Same s (s.setStatus t status) :=
  same_setTask rfl

theorem same_complete (t : Nat) : Same s (s.complete t) :=
  same_trans (same_setStatus t .completed) (same_tasks (fun _ => rfl) rfl rfl rfl rfl)

theorem same_moveTo (found : s.contexts k = some context) (point : Point) :
    Same s (s.moveTo k context point) := by
  refine ⟨fun _ => rfl, rfl, rfl, rfl, fun l before there => ?_⟩
  change ∃ after, Function.update s.contexts k _ l = some after ∧ _
  by_cases same : l = k
  · subst same
    rw [found] at there
    cases there
    exact ⟨_, Function.update_self .., rfl, rfl⟩
  · rw [Function.update_of_ne same]
    exact ⟨before, there, rfl, rfl⟩

theorem same_swapRunning {source target : Option Nat}
    (taken : swapRunning s source target = some s') : Same s s' := by
  have leaves : Leaves none (fun _ => False) s s' := leaves_swapRunning taken
  have chains : ∀ l before, s.contexts l = some before → ∃ after, s'.contexts l = some after ∧
      after.base = before.base ∧ after.awaits = before.awaits := fun l before there =>
    ⟨before, leaves.contexts l before (by simp) there, rfl, rfl⟩
  unfold swapRunning at taken
  split at taken
  · cases taken
  · split at taken
    · cases taken
      exact ⟨fun _ => rfl, rfl, rfl, rfl, chains⟩
    · split at taken
      · cases taken
        exact ⟨fun _ => rfl, rfl, rfl, rfl, chains⟩
      · cases taken
      · rename_i t _ _
        split at taken
        · cases taken
          have marked : Same s (s.setStatus t .running) := same_setStatus t .running
          exact ⟨marked.uid, rfl, rfl, rfl, chains⟩
        · cases taken

theorem same_taskYield {at_ : YieldAt} (found : s.contexts k = some context)
    (taken : taskYield s k context at_ = some s') : Same s s' := by
  have spent : Same s (s.setTask context.inner fun task => { task with blockTo := none }) :=
    same_setTask rfl
  exact same_trans (same_trans spent (same_moveTo (by exact found) _)) (same_swapRunning taken)

theorem turnover_after (first : Same s middle) (second : Turnover middle s' k context) :
    Turnover s s' k context := by
  cases second with
  | same kept => exact .same (same_trans first kept)
  | left frame outer ended =>
      refine .left frame outer { ended with
        uid := fun t => ?_
        manager := ended.manager.trans first.manager
        live := ended.live.trans first.live
        next := ended.next.trans first.next }
      rw [ended.uid t, first.uid t]
  | finished ended =>
      refine .finished { ended with
        uid := fun t => (ended.uid t).trans (first.uid t)
        next := ended.next.trans first.next
        object := ?_ }
      rw [← first.live, ← first.manager]
      exact ended.object

end Rules

section Functions

variable {s s' : State} {k : Nat} {context : Context}

theorem left_awaitReturn {frame : Frame} {outer : List Frame}
    (awaits : context.awaits = frame :: outer) :
    Left s (awaitReturn s k context frame outer) k context frame outer := by
  obtain ⟨ended, same, rest⟩ : ∃ ended, Same s ended ∧
      awaitReturn s k context frame outer = State.setContext { (ended.setTask frame.target fun task =>
          { task with uid := none, blockTo := none }).setTask frame.parent fun parent =>
            { parent with
              reuse := none
              blockTo := if (s.tasks frame.target).blockTo ≠ none then (s.tasks frame.target).blockTo
                else parent.blockTo } with current := some frame.parent } k
        { context with
          awaits := outer
          point := if (s.tasks frame.target).status = .canceled then .throwing else .user } := by
    refine ⟨_, ?_, rfl⟩
    split
    · exact same_complete _
    · exact same_tasks (fun _ => rfl) rfl rfl rfl rfl
  rw [rest]
  refine ⟨awaits, fun t => ?_, same.manager, same.live, same.next,
    ⟨_, Function.update_self .., rfl, rfl⟩, rfl, ?_⟩
  · change (Function.update (Function.update ended.tasks frame.target _) frame.parent _ t).uid = _
    rw [← same.uid t]
    by_cases parent : t = frame.parent
    · subst parent
      rw [Function.update_self]
      by_cases target : frame.parent = frame.target
      · rw [if_pos target]
        change (Function.update ended.tasks frame.target _ frame.parent).uid = none
        rw [target, Function.update_self]
      · rw [if_neg target]
        change (Function.update ended.tasks frame.target _ frame.parent).uid = _
        rw [Function.update_of_ne target]
    · rw [Function.update_of_ne parent]
      by_cases target : t = frame.target
      · rw [if_pos target, target, Function.update_self]
      · rw [if_neg target, Function.update_of_ne target]
  · simp only [State.setContext, setTask_self]

theorem left_awaitRethrow {frame : Frame} {outer : List Frame}
    (awaits : context.awaits = frame :: outer) :
    Left s (awaitRethrow s k context frame outer) k context frame outer := by
  refine ⟨awaits, fun t => ?_, rfl, rfl, rfl, ⟨_, Function.update_self .., rfl, rfl⟩, rfl, ?_⟩
  · change (Function.update (Function.update s.tasks frame.parent _) frame.target _ t).uid = _
    by_cases target : t = frame.target
    · rw [if_pos target, target, Function.update_self]
    · rw [if_neg target, Function.update_of_ne target]
      by_cases parent : t = frame.parent
      · rw [parent, Function.update_self]
      · rw [Function.update_of_ne parent]
  · change (Function.update (Function.update s.tasks frame.parent _) frame.target _
      frame.parent : Task).reuse = none
    by_cases target : frame.parent = frame.target
    · rw [target, Function.update_self]
      change (Function.update s.tasks frame.target _ frame.target : Task).reuse = none
      rw [Function.update_self]
    · rw [Function.update_of_ne target, Function.update_self]

theorem finished_runtimeFinish
    (way : context.awaits = [] ∨ cancelCaller context.point = some .runtime)
    (taken : runtimeFinish s k context = some s') : Finished s s' k context := by
  unfold runtimeFinish at taken
  dsimp only at taken
  split at taken
  · have same := same_swapRunning taken
    exact ⟨way, same.uid, same.next, Or.inr ⟨same.live, same.manager⟩⟩
  · have same := same_swapRunning taken
    exact ⟨way, same.uid, same.next, Or.inl ⟨same.live, same.manager⟩⟩

theorem turnover_cancelReturn {caller : CancelCaller} (found : s.contexts k = some context)
    (way : caller = .runtime → context.awaits = [] ∨ cancelCaller context.point = some .runtime)
    (taken : cancelReturn s k context caller = some s') : Turnover s s' k context := by
  unfold cancelReturn at taken
  split at taken
  · cases taken
    exact .same (same_moveTo found _)
  · cases taken
    exact .same (same_moveTo found _)
  · split at taken
    · cases taken
    · rename_i frame outer awaits
      cases taken
      exact .left frame outer (left_awaitRethrow awaits)
  · exact .finished (finished_runtimeFinish (way rfl) taken)
  · cases taken

theorem turnover_cancelRound {children : List Nat} {i unsupport : Nat} {caller : CancelCaller}
    (found : s.contexts k = some context) (point : context.point = .cancelLoop i unsupport caller)
    (taken : cancelRound s k context children i unsupport caller = some s') :
    Turnover s s' k context := by
  unfold cancelRound at taken
  split at taken
  · split at taken
    · cases taken
    · split at taken
      · split at taken
        · cases taken
        · cases taken
          refine .same (same_trans ?_ (same_moveTo ?_ _))
          · split
            · exact same_setStatus _ _
            · exact same_tasks (fun _ => rfl) rfl rfl rfl rfl
          · split <;> exact found
        · rename_i child _ _ _ _ _
          refine .same (same_trans (same_trans ?_ (same_moveTo (by exact found) _))
            (same_swapRunning taken))
          exact same_trans (same_setStatus child .canceled)
            (same_tasks (fun _ => rfl) rfl rfl rfl rfl)
      · cases taken
        exact .same (same_moveTo found _)
  · split at taken
    · refine turnover_cancelReturn found (fun runtime => Or.inr ?_) taken
      rw [point, runtime]
      rfl
    · cases taken
      refine .same (same_trans ?_ (same_moveTo (by exact found) _))
      exact same_setTask rfl

theorem turnover_cancelTask {caller : CancelCaller} (found : s.contexts k = some context)
    (way : caller = .runtime → context.awaits = [] ∨ cancelCaller context.point = some .runtime)
    (taken : cancelTask s k context caller = some s') : Turnover s s' k context := by
  unfold cancelTask at taken
  split at taken
  · exact turnover_cancelReturn found way taken
  · refine turnover_after ?_ (turnover_cancelReturn (by exact found) way taken)
    exact same_tasks (fun _ => rfl) rfl rfl rfl rfl
  · cases taken
    exact .same (same_moveTo found _)

theorem turnover_runReturn (taken : runReturn s k context = some s') :
    Turnover s s' k context := by
  unfold runReturn at taken
  split at taken
  · rename_i frame outer awaits
    cases taken
    exact .left frame outer (left_awaitReturn awaits)
  · rename_i awaits
    split at taken
    · exact turnover_after (same_complete _) (.finished (finished_runtimeFinish (Or.inl awaits) taken))
    · exact .finished (finished_runtimeFinish (Or.inl awaits) taken)

theorem turnover_runThrow (found : s.contexts k = some context)
    (taken : runThrow s k context = some s') : Turnover s s' k context := by
  unfold runThrow at taken
  refine turnover_after (same_setStatus context.inner .canceled)
    (turnover_cancelTask (by exact found) (fun runtime => Or.inl ?_) taken)
  by_contra inside
  rw [if_neg inside] at runtime
  cases runtime

theorem turnover_yieldReturn {at_ : YieldAt} (found : s.contexts k = some context)
    (calm : ∀ unsupport caller, at_ = .cancelWait unsupport caller → caller = .anyRun)
    (taken : yieldReturn s k context at_ = some s') : Turnover s s' k context := by
  have consumed : Same s { s with signal := false } := same_tasks (fun _ => rfl) rfl rfl rfl rfl
  unfold yieldReturn at taken
  dsimp only at taken
  split at taken
  · split at taken
    · have interrupted : Same s ({ s with signal := false }.setStatus context.inner .canceled) :=
        same_trans consumed (same_setStatus _ _)
      split at taken
      · rename_i unsupport _ _ _
        have other := calm unsupport .await rfl
        cases other
      · cases taken
      · cases taken
      · cases taken
      · cases taken
        exact .same (same_trans interrupted (same_moveTo (by exact found) _))
    · split at taken
      · exact turnover_after consumed (turnover_cancelTask (by exact found) (by simp) taken)
      · exact turnover_after consumed (turnover_cancelTask (by exact found) (by simp) taken)
  · split at taken
    · cases taken
      exact .same (same_moveTo found _)
    · cases taken
      exact .same (same_moveTo found _)
    · split at taken
      · cases taken
        exact .same (same_moveTo found _)
      · cases taken
        refine .same (same_trans ?_ (same_moveTo (by exact found) _))
        exact same_setTask rfl
      · cases taken

theorem turnover_groupStep {which : Combinator} {children : List Nat}
    (found : s.contexts k = some context)
    (calm : ∀ unsupport caller, context.point = .cancelWait unsupport caller → caller = .anyRun)
    (taken : groupStep s k context which children context.point = some s') :
    Turnover s s' k context := by
  cases point : context.point with
  | starting i count =>
      simp only [point, groupStep] at taken
      split at taken
      · cases taken
        exact .same (same_moveTo found _)
      · split at taken
        · exact .same (same_trans (same_moveTo found _) (same_swapRunning taken))
        · cases taken
  | started i count =>
      simp only [point, groupStep] at taken
      split at taken
      · cases taken
      · split at taken
        · cases taken
        · split at taken
          · split at taken
            · cases taken
              exact .same (same_moveTo found _)
            · cases taken
              refine .same (same_trans ?_ (same_moveTo (by exact found) _))
              exact same_setTask rfl
          · cases taken
            exact .same (same_moveTo found _)
  | waiting count =>
      simp only [point, groupStep] at taken
      split at taken
      · split at taken
        · cases taken
          exact .same (same_moveTo found _)
        · exact .same (same_taskYield found taken)
      · split at taken
        · exact .same (same_taskYield found taken)
        · cases taken
          exact .same (same_moveTo found _)
  | cancelLoop i unsupport caller =>
      simp only [point, groupStep] at taken
      exact turnover_cancelRound found point taken
  | canceling i unsupport caller =>
      simp only [point, groupStep] at taken
      cases taken
      exact .same (same_moveTo found _)
  | cancelWait unsupport caller =>
      simp only [point, groupStep] at taken
      -- the other callers do not wait, by assumption
      obtain rfl := calm unsupport caller point
      split at taken
      · exact turnover_cancelReturn found (by simp) taken
      · exact .same (same_taskYield found taken)
  | goal =>
      simp only [point, groupStep] at taken
      cases taken
      exact .same (same_moveTo found _)
  | _ =>
      simp only [point, groupStep] at taken
      cases taken

theorem same_runGroup {children : List Nat} (found : s.contexts k = some context)
    (taken : runGroup s k context children = some s') : Same s s' := by
  unfold runGroup at taken
  cases result : adoptChildren s (s.tasks context.inner).uid children with
  | none =>
      rw [result] at taken
      cases taken
  | some adopted =>
      obtain ⟨state, all⟩ := adopted
      obtain ⟨first, -, -, rfl, -, -⟩ := adoptChildren_spec result
      have linked : Same s (adopts s (s.tasks context.inner).uid first) :=
        same_tasks (fun t => (adopts_fields first t).2.2.1) rfl rfl rfl rfl
      rw [result] at taken
      cases all with
      | true =>
          cases taken
          exact same_trans linked (same_moveTo (by exact found) _)
      | false =>
          cases taken
          refine same_trans (same_trans linked ?_) (same_moveTo (by exact found) _)
          exact same_setStatus _ _

end Functions

/-- A call of `__await` that accepts its target: the target is lent the id of coroutine `k`. -/
structure Lent (s s' : State) (k : Nat) (context : Context) (target : Nat) : Prop where
  uid : ∀ t, (s'.tasks t).uid = if t = target then some k else (s.tasks t).uid
  manager : s'.manager = s.manager
  live : s'.live = s.live
  next : s'.next = s.next
  stack : ∃ after, s'.contexts k = some after ∧ after.chain = target :: context.chain

def Refused (s s' : State) (target : Nat) : Prop :=
  s' = s.setTask target fun task => { task with uid := none }

inductive Change (s s' : State) : Label → Prop where
  | same (label : Label) (plain : ∀ t, label ≠ .await t) (kept : Same s s') : Change s s' label
  | left (label : Label) (plain : ∀ t, label ≠ .await t) (k : Nat) (context : Context)
      (frame : Frame) (outer : List Frame) (exec : s.exec = some k)
      (found : s.contexts k = some context) (ended : Left s s' k context frame outer) :
      Change s s' label
  | finished (label : Label) (plain : ∀ t, label ≠ .await t) (k : Nat) (context : Context)
      (exec : s.exec = some k) (found : s.contexts k = some context)
      (ended : Finished s s' k context) : Change s s' label
  | lent (k : Nat) (context : Context) (target : Nat) (exec : s.exec = some k)
      (found : s.contexts k = some context) (alive : s.live target = true)
      (unstarted : (s.tasks target).status = .ready ∨ (s.tasks target).status = .limited)
      (accepted : Lent s s' k context target) : Change s s' (.await target)
  | refused (target : Nat) (alive : s.live target = true)
      (started : (s.tasks target).status ≠ .ready ∧ (s.tasks target).status ≠ .limited)
      (given : Refused s s' target) : Change s s' (.await target)
  | destroyed (label : Label) (t : Nat) (way : label = .destroy t ∨ label = .start t)
      (alive : s.live t = true)
      (gone : s' = { s with live := Function.update s.live t false }) : Change s s' label

section Steps

variable {s s' : State} {nest : Nest} {label : Label}

theorem change_turnover {k : Nat} {context : Context} (exec : s.exec = some k)
    (found : s.contexts k = some context) (turnover : Turnover s s' k context) :
    Change s s' .tau := by
  cases turnover with
  | same kept => exact .same _ (by simp) kept
  | left frame outer ended => exact .left _ (by simp) k context frame outer exec found ended
  | finished ended => exact .finished _ (by simp) k context exec found ended

theorem change_objectStep (objects : ∀ kind uid, label ≠ .construct kind uid)
    (taken : objectStep s label = some s') : Change s s' label := by
  unfold objectStep at taken
  split at taken
  · cases taken
  · exact absurd rfl (objects _ _)
  · rename_i target
    split at taken
    · rename_i alive
      cases taken
      exact .destroyed _ target (Or.inl rfl) alive rfl
    · cases taken
  · split at taken
    · cases taken
      exact .same _ (by simp) (same_setTask rfl)
    · cases taken
  · cases taken

theorem change_await {k : Nat} {mode : Mode} {rest : Nest} {context : Context} {target : Nat}
    (inv : Invariant s ((k, mode) :: rest)) (found : s.contexts k = some context)
    (taken : await s k context target = some s') : Change s s' (.await target) := by
  have exec : s.exec = some k := inv.exec
  obtain ⟨parent, member, current⟩ := inv.current k context exec found
  unfold await at taken
  split at taken
  · cases taken
  · rename_i dead
    have alive : s.live target = true := by simpa using dead
    simp only [current] at taken
    split at taken
    · rename_i started
      cases taken
      exact .refused target alive started rfl
    · rename_i unstarted
      have fit : (s.tasks target).status = .ready ∨ (s.tasks target).status = .limited := by
        by_contra started
        exact unstarted (not_or.mp started)
      have owner := ((inv.sound k context found).owned parent member).2
      have apart : parent ≠ target := by
        rintro rfl
        have begun := engaged_status inv found member
        exact fit.elim begun.1 begun.2
      cases taken
      refine .lent k context target exec found alive fit ⟨fun t => ?_, rfl, rfl, rfl,
        ⟨_, Function.update_self .., rfl⟩⟩
      by_cases first : t = parent
      · subst first
        simp [State.setContext, State.setTask, apart]
      · by_cases second : t = target
        · subst second
          simp [State.setContext, State.setTask, first, apart, owner]
        · simp [State.setContext, State.setTask, first, second]

theorem change_start {k : Nat} {context : Context} {target : Nat}
    (found : s.contexts k = some context)
    (taken : start s k context target = some s') : Change s s' (.start target) := by
  unfold start at taken
  split at taken
  · cases taken
  · rename_i alive
    split at taken
    · cases taken
    · split at taken
      · cases taken
        exact .destroyed _ target (Or.inr rfl) (by simpa using alive) rfl
      · refine .same _ (by simp) (same_trans (same_trans ?_ (same_moveTo (by exact found) _))
          (same_swapRunning taken))
        exact same_setTask rfl

/-- The step lemma of this module. -/
theorem step_changes (inv : Invariant s nest) (objects : ∀ kind uid, label ≠ .construct kind uid)
    (taken : step s label = some s') : Change s s' label := by
  have exec := inv.exec
  unfold step at taken
  cases nest with
  | nil =>
      change s.exec = none at exec
      rw [exec] at taken
      dsimp only [loopStep] at taken
      split at taken
      · split at taken
        · refine .same _ (by simp) (same_trans ?_ (same_swapRunning taken))
          exact same_tasks (fun _ => rfl) rfl rfl rfl rfl
        · cases taken
      · rename_i t
        split at taken
        · have linked : Same s (s.setTask t fun task =>
              { task with blockTo := none, finishTo := none }) := same_setTask rfl
          refine .same _ (by simp) (same_trans (same_trans linked ?_) (same_swapRunning taken))
          exact same_tasks (fun _ => rfl) rfl rfl rfl rfl
        · cases taken
      · split at taken
        · exact change_objectStep objects taken
        · cases taken
  | cons entry rest =>
      obtain ⟨k, mode⟩ := entry
      change s.exec = some k at exec
      rw [exec] at taken
      dsimp only at taken
      cases found : s.contexts k with
      | none =>
          rw [found] at taken
          cases taken
      | some context =>
          have placed := placed_of inv found
          -- only `any_of::run` waits behind its cancel loop
          have calm : ∀ unsupport caller, context.point = .cancelWait unsupport caller →
              caller = .anyRun := by
            intro unsupport caller point
            simp only [Placed, point] at placed
            exact placed.1
          rw [found] at taken
          dsimp only [contextStep] at taken
          split at taken
          · unfold coroutineStep at taken
            split at taken
            · cases taken
              exact .same _ (by simp) (same_moveTo found _)
            · exact .same _ (by simp) (same_runGroup found taken)
            · cases taken
              exact .same _ (by simp) (same_moveTo found _)
            · rename_i at_ _ point
              refine change_turnover exec found (turnover_yieldReturn found ?_ taken)
              rintro unsupport caller rfl
              simp only [Placed, point] at placed
              exact placed.1
            · exact change_turnover exec found (turnover_runReturn taken)
            · exact change_turnover exec found (turnover_runThrow found taken)
            · exact change_turnover exec found (turnover_groupStep found calm taken)
            · cases taken
          · refine .same _ (by simp) (same_trans ?_ (same_taskYield (by exact found) taken))
            exact same_tasks (fun _ => rfl) rfl rfl rfl rfl
          · cases taken
            exact .same _ (by simp) (same_moveTo found _)
          · exact change_objectStep objects taken
          · unfold userStep at taken
            split at taken
            · exact change_await inv found taken
            · exact change_start found taken
            · cases taken
              exact .same _ (by simp) (same_moveTo found _)
            · exact change_objectStep objects taken
          · cases taken

end Steps

end Cocoflow.SchedulerIds
