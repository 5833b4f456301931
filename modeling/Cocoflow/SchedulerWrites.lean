import Mathlib.Logic.Relation
import Mathlib.Logic.Function.Basic
import Mathlib.Data.List.Basic
import Cocoflow.SchedulerFrame

/-!
A step as a sequence of elementary writes. A task object is linked to others, is given a
status, or is built; a primitive is armed or disarmed. Each status is given for a reason that
can be seen in the state before the step. What a step does to statuses and to the armed
primitives then follows by induction on the writes, and not function by function.
-/

namespace Cocoflow.SchedulerWrites

open LabelledRuns Scheduler SchedulerNest SchedulerLocal SchedulerSteps SchedulerObjects
open SchedulerRuns SchedulerFrame

/-- The task may be marked canceled in the next step of a coroutine: by the handler of its own
`run`, by the yield that finds the signal, or by the loop of `__task_cancel_children`, as a
child or as the protected task that a child waits for. -/
inductive Cancels (s : State) (context : Context) : Nat → Prop where
  | handled (point : context.point = .throwing) : Cancels s context context.inner
  | signalled (at_ : YieldAt) (point : context.point = .yielded at_) (raised : s.signal = true) :
      Cancels s context context.inner
  | child (i unsupport t : Nat) (caller : CancelCaller)
      (point : context.point = .cancelLoop i unsupport caller)
      (member : t ∈ childrenOf (s.tasks context.inner).kind)
      (runs : (s.tasks t).status = .running) : Cancels s context t
  | protector (i unsupport child t : Nat) (caller : CancelCaller)
      (point : context.point = .cancelLoop i unsupport caller)
      (member : child ∈ childrenOf (s.tasks context.inner).kind)
      (runs : (s.tasks child).status = .running)
      (walk : protector s s.next child = some (some t)) (apart : t ≠ child) : Cancels s context t

def Becomes (s : State) (t : Nat) : Status → Prop
  | .ready | .limited => False
  | .running => s.live t = true
  | .completed => (∃ context ∈ running s, context.point = .returning ∧ t = context.inner) ∧
      ((s.tasks t).status = .running ∨ (s.tasks t).status = .canceled)
  | .childUnready => Refuses s t
  | .canceled => ∃ context ∈ running s, Cancels s context t

/-- One write of a step that begins in state `s`. -/
inductive Write (s : State) (label : Label) (x : State) : State → Prop where
  | frame (x' : State) (tasks : x'.tasks = x.tasks) (armed : x'.armed = x.armed)
      (next : x'.next = x.next) (done : x'.done = x.done)
      (live : ∀ t, x'.live t = true → x.live t = true) : Write s label x x'
  | link (t : Nat) (write : Task → Task) (status : (write (x.tasks t)).status = (x.tasks t).status)
      (kind : (write (x.tasks t)).kind = (x.tasks t).kind) : Write s label x (x.setTask t write)
  | restate (t : Nat) (write : Task → Task) (status : Status)
      (gives : (write (x.tasks t)).status = status)
      (kind : (write (x.tasks t)).kind = (x.tasks t).kind) (why : Becomes s t status) :
      Write s label x (x.setTask t write)
  | begins (t : Nat) (write : Task → Task) (gives : (write (x.tasks t)).status = .running)
      (kind : (write (x.tasks t)).kind = (x.tasks t).kind) (alive : x.live t = true) :
      Write s label x (x.setTask t write)
  | finishes (t : Nat) (why : Becomes s t .completed) (first : x.done = s.done) :
      Write s label x (x.complete t)
  | arm (context : Context) (shown : context ∈ running s)
      (kind : (s.tasks context.inner).kind = .event) (why : label = .block) :
      Write s label x { x with armed := Function.update x.armed context.inner true }
  | disarm (t : Nat) (why : label = .event t ∨ ∃ context ∈ running s, t = context.inner) :
      Write s label x { x with armed := Function.update x.armed t false }
  | build (task : Task) (new : task.status = .ready ∨ task.status = .limited)
      (parent : ∀ which, task.kind ≠ .group which []) (x' : State)
      (tasks : x'.tasks = Function.update x.tasks x.next task) (armed : x'.armed = x.armed)
      (next : x'.next = x.next + 1) (done : x'.done = x.done)
      (live : x'.live = Function.update x.live x.next true) : Write s label x x'

abbrev Writes (s : State) (label : Label) : State → State → Prop :=
  Relation.ReflTransGen (Write s label)

section Rules

variable {s x x' middle : State} {label : Label} {k : Nat} {context : Context}

theorem writes_trans (first : Writes s label x middle) (second : Writes s label middle x') :
    Writes s label x x' := Relation.ReflTransGen.trans first second

theorem writes_frame (tasks : x'.tasks = x.tasks) (armed : x'.armed = x.armed)
    (next : x'.next = x.next) (done : x'.done = x.done) (live : x'.live = x.live) :
    Writes s label x x' :=
  .single (.frame x' tasks armed next done fun _ alive => live ▸ alive)

theorem writes_destroy {t : Nat} (tasks : x'.tasks = x.tasks) (armed : x'.armed = x.armed)
    (next : x'.next = x.next) (done : x'.done = x.done)
    (live : x'.live = Function.update x.live t false) : Writes s label x x' := by
  refine .single (.frame x' tasks armed next done fun other alive => ?_)
  rw [live] at alive
  by_cases here : other = t
  · subst here
    rw [Function.update_self] at alive
    cases alive
  · rwa [Function.update_of_ne here] at alive

theorem writes_link {t : Nat} {write : Task → Task}
    (status : (write (x.tasks t)).status = (x.tasks t).status)
    (kind : (write (x.tasks t)).kind = (x.tasks t).kind) :
    Writes s label x (x.setTask t write) :=
  .single (.link t write status kind)

theorem writes_restate (t : Nat) {status : Status} (why : Becomes s t status) :
    Writes s label x (x.setStatus t status) :=
  .single (.restate t _ status rfl rfl why)

theorem writes_complete (t : Nat) (why : Becomes s t .completed) :
    Writes s label s (s.complete t) :=
  .single (.finishes t why rfl)

theorem writes_current (current : Option Nat) :
    Writes s label x { x with current := current } := writes_frame rfl rfl rfl rfl rfl

theorem writes_setContext (next : Context) : Writes s label x (x.setContext k next) :=
  writes_frame rfl rfl rfl rfl rfl

theorem writes_moveTo (point : Point) : Writes s label x (x.moveTo k context point) :=
  writes_frame rfl rfl rfl rfl rfl

theorem writes_swapRunning {source next : Option Nat}
    (taken : swapRunning x source next = some x') : Writes s label x x' := by
  unfold swapRunning at taken
  split at taken
  · cases taken
  · split at taken
    · cases taken
      exact writes_frame rfl rfl rfl rfl rfl
    · split at taken
      · cases taken
        exact writes_frame rfl rfl rfl rfl rfl
      · cases taken
      · rename_i t _ _
        split at taken
        · rename_i alive
          cases taken
          have begun : Writes s label x (x.setStatus t .running) :=
            .single (.begins t _ rfl rfl alive)
          exact writes_trans begun (writes_frame rfl rfl rfl rfl rfl)
        · cases taken

end Rules

section Functions

variable {s x x' : State} {label : Label} {k : Nat} {context : Context}

theorem writes_taskYield {at_ : YieldAt} (taken : taskYield x k context at_ = some x') :
    Writes s label x x' := by
  refine writes_trans (writes_trans ?_ (writes_moveTo _)) (writes_swapRunning taken)
  exact writes_link rfl rfl

theorem writes_runtimeFinish (taken : runtimeFinish x k context = some x') :
    Writes s label x x' := by
  unfold runtimeFinish at taken
  dsimp only at taken
  split at taken
  · refine writes_trans ?_ (writes_swapRunning taken)
    exact writes_destroy rfl rfl rfl rfl rfl
  · refine writes_trans ?_ (writes_swapRunning taken)
    exact writes_frame rfl rfl rfl rfl rfl

theorem writes_await {target : Nat} (taken : await x k context target = some x') :
    Writes s label x x' := by
  unfold await at taken
  split at taken
  · cases taken
  · rename_i dead
    dsimp only at taken
    have given : Writes s label x (x.setTask target fun task => { task with uid := none }) :=
      writes_link rfl rfl
    split at taken
    · cases taken
    · split at taken
      · cases taken
        exact given
      · cases taken
        refine writes_trans (writes_trans ?_ (writes_current _)) (writes_setContext _)
        refine writes_trans (writes_trans given ?_) (writes_link rfl rfl)
        exact .single (.begins target _ rfl rfl (eq_true_of_ne_false dead))

theorem writes_awaitReturn {frame : Frame} {outer : List Frame}
    (ends : ∃ context ∈ running s, context.point = .returning ∧ frame.target = context.inner) :
    Writes s label s (awaitReturn s k context frame outer) := by
  refine writes_trans (writes_trans ?_ (writes_current _)) (writes_setContext _)
  refine writes_trans (writes_trans ?_ (writes_link rfl rfl))
    (writes_link rfl rfl)
  split
  · rename_i unsettled
    exact writes_complete _ ⟨ends, unsettled⟩
  · exact writes_frame rfl rfl rfl rfl rfl

theorem writes_awaitRethrow (frame : Frame) (outer : List Frame) :
    Writes s label x (awaitRethrow x k context frame outer) := by
  refine writes_trans (writes_trans ?_ (writes_current _)) (writes_setContext _)
  exact writes_trans (writes_link rfl rfl) (writes_link rfl rfl)

theorem writes_start {target : Nat} (taken : start x k context target = some x') :
    Writes s label x x' := by
  unfold start at taken
  split at taken
  · cases taken
  · split at taken
    · cases taken
    · split at taken
      · cases taken
        exact writes_destroy rfl rfl rfl rfl rfl
      · refine writes_trans (writes_trans ?_ (writes_moveTo _)) (writes_swapRunning taken)
        exact writes_link rfl rfl

theorem writes_cancelReturn {caller : CancelCaller}
    (taken : cancelReturn x k context caller = some x') : Writes s label x x' := by
  unfold cancelReturn at taken
  split at taken
  · cases taken
    exact writes_moveTo _
  · cases taken
    exact writes_moveTo _
  · split at taken
    · cases taken
    · cases taken
      exact writes_awaitRethrow _ _
  · exact writes_runtimeFinish taken
  · cases taken

-- A round of the cancel loop is the first thing that a step does, so `x` is the state before the
-- step.
theorem writes_cancelRound {i unsupport : Nat} {caller : CancelCaller}
    (shown : context ∈ running s) (point : context.point = .cancelLoop i unsupport caller)
    (taken : cancelRound s k context (childrenOf (s.tasks context.inner).kind) i unsupport caller =
      some s') : Writes s label s s' := by
  unfold cancelRound at taken
  split at taken
  · rename_i child here
    have member := List.mem_of_getElem? here
    split at taken
    · cases taken
    · split at taken
      · rename_i runs
        split at taken
        · cases taken
        · rename_i final walk
          cases taken
          refine writes_trans ?_ (writes_moveTo _)
          split
          · rename_i apart
            exact writes_restate final
              ⟨context, shown, .protector i unsupport child final caller point member runs walk apart⟩
          · exact writes_frame rfl rfl rfl rfl rfl
        · refine writes_trans (writes_trans ?_ (writes_moveTo _)) (writes_swapRunning taken)
          have marked : Writes s label s (s.setStatus child .canceled) :=
            writes_restate child ⟨context, shown, .child i unsupport child caller point member runs⟩
          exact writes_trans marked (writes_frame rfl rfl rfl rfl rfl)
      · cases taken
        exact writes_moveTo _
  · split at taken
    · exact writes_cancelReturn taken
    · cases taken
      refine writes_trans ?_ (writes_moveTo _)
      exact writes_link rfl rfl

theorem writes_cancelTask {caller : CancelCaller} (shown : context ∈ running s)
    (taken : cancelTask x k context caller = some x') : Writes s label x x' := by
  unfold cancelTask at taken
  split at taken
  · exact writes_cancelReturn taken
  · refine writes_trans ?_ (writes_cancelReturn taken)
    exact .single (.disarm _ (.inr ⟨context, shown, rfl⟩))
  · cases taken
    exact writes_moveTo _

theorem writes_runReturn (shown : context ∈ running s) (point : context.point = .returning)
    (taken : runReturn s k context = some s') : Writes s label s s' := by
  unfold runReturn at taken
  split at taken
  · rename_i frame outer awaits
    cases taken
    refine writes_awaitReturn ⟨context, shown, point, ?_⟩
    simp [Context.inner, awaits]
  · rename_i alone
    split at taken
    · rename_i unsettled
      refine writes_trans (writes_complete _ ⟨⟨context, shown, point, ?_⟩, .inl unsettled⟩)
        (writes_runtimeFinish taken)
      simp [Context.inner, alone]
    · exact writes_runtimeFinish taken

theorem writes_yieldReturn {at_ : YieldAt} (shown : context ∈ running s)
    (point : context.point = .yielded at_) (taken : yieldReturn s k context at_ = some s') :
    Writes s label s s' := by
  have consumed : Writes s label s { s with signal := false } := writes_frame rfl rfl rfl rfl rfl
  unfold yieldReturn at taken
  dsimp only at taken
  split at taken
  · rename_i raised
    split at taken
    · have interrupted : Writes s label s
          ({ s with signal := false }.setStatus context.inner .canceled) :=
        writes_trans consumed (writes_restate _ ⟨context, shown, .signalled at_ point raised⟩)
      split at taken
      · cases taken
        exact writes_trans interrupted (writes_setContext _)
      · cases taken
      · cases taken
      · cases taken
      · cases taken
        exact writes_trans interrupted (writes_moveTo _)
    · split at taken
      · exact writes_trans consumed (writes_cancelTask shown taken)
      · exact writes_trans consumed (writes_cancelTask shown taken)
  · split at taken
    · cases taken
      exact writes_moveTo _
    · cases taken
      exact writes_moveTo _
    · split at taken
      · cases taken
        exact writes_moveTo _
      · cases taken
        refine writes_trans ?_ (writes_moveTo _)
        exact writes_link rfl rfl
      · cases taken

theorem writes_adoptChildren {uid : Option Nat} {children : List Nat} {all : Bool}
    (adopted : adoptChildren x uid children = some (x', all)) : Writes s label x x' := by
  induction children generalizing x with
  | nil =>
      cases adopted
      exact .refl
  | cons child others ih =>
      unfold adoptChildren at adopted
      split at adopted
      · cases adopted
      · split at adopted
        · cases adopted
          exact .refl
        · refine writes_trans ?_ (ih adopted)
          exact writes_link rfl rfl

theorem writes_runGroup {children : List Nat}
    (refused : (∃ t ∈ children, (x.tasks t).status ≠ .ready) → Refuses s context.inner)
    (taken : runGroup x k context children = some x') : Writes s label x x' := by
  unfold runGroup at taken
  cases result : adoptChildren x (x.tasks context.inner).uid children with
  | none =>
      rw [result] at taken
      cases taken
  | some adopted =>
      obtain ⟨state, all⟩ := adopted
      rw [result] at taken
      cases all with
      | true =>
          cases taken
          exact writes_trans (writes_adoptChildren result) (writes_moveTo _)
      | false =>
          cases taken
          refine writes_trans (writes_trans (writes_adoptChildren result) ?_) (writes_moveTo _)
          exact writes_restate _ (refused (adoptChildren_stops result))

theorem writes_groupStep {which : Combinator} {children : List Nat} (shown : context ∈ running s)
    (kind : (s.tasks context.inner).kind = .group which children)
    (taken : groupStep s k context which children context.point = some s') :
    Writes s label s s' := by
  unfold groupStep at taken
  split at taken
  · split at taken
    · cases taken
      exact writes_moveTo _
    · split at taken
      · refine writes_trans ?_ (writes_swapRunning taken)
        exact writes_moveTo _
      · cases taken
  · split at taken
    · cases taken
    · split at taken
      · cases taken
      · split at taken
        · split at taken
          · cases taken
            exact writes_moveTo _
          · cases taken
            refine writes_trans ?_ (writes_moveTo _)
            exact writes_link rfl rfl
        · cases taken
          exact writes_moveTo _
  · split at taken
    · split at taken
      · cases taken
        exact writes_moveTo _
      · exact writes_taskYield taken
    · split at taken
      · exact writes_taskYield taken
      · cases taken
        exact writes_moveTo _
  · rename_i i unsupport caller point
    refine writes_cancelRound (k := k) shown point ?_
    rw [kind]
    exact taken
  · cases taken
    exact writes_moveTo _
  · split at taken
    · exact writes_cancelReturn taken
    · exact writes_taskYield taken
  · cases taken
    exact writes_moveTo _
  · cases taken

theorem writes_objectStep {other : Label} (taken : objectStep x other = some x') :
    Writes s label x x' := by
  unfold objectStep at taken
  split at taken
  · cases taken
  · rename_i kind _ parent
    have some_ (which : Combinator) : kind ≠ .group which [] := by
      rintro rfl
      exact parent which rfl
    unfold construct at taken
    split at taken
    · cases taken
      exact .single (.build _ (.inr rfl) some_ _ rfl rfl rfl rfl rfl)
    · split at taken
      · cases taken
      · cases taken
        exact .single (.build _ (.inl rfl) some_ _ rfl rfl rfl rfl rfl)
  · split at taken
    · cases taken
      exact writes_destroy rfl rfl rfl rfl rfl
    · cases taken
  · split at taken
    · cases taken
      exact writes_link rfl rfl
    · cases taken
  · cases taken

end Functions

section Steps

variable {s s' : State} {label : Label}

/-- Every step is a sequence of such writes. -/
theorem step_writes (taken : step s label = some s') : Writes s label s s' := by
  unfold step at taken
  cases exec : s.exec with
  | none =>
      rw [exec] at taken
      dsimp only [loopStep] at taken
      split at taken
      · rename_i t
        split at taken
        · refine writes_trans ?_ (writes_swapRunning taken)
          exact .single (.disarm t (.inl rfl))
        · cases taken
      · rename_i t
        split at taken
        · refine writes_trans ?_ (writes_swapRunning taken)
          have linked : Writes s (.cocoflow t) s (s.setTask t fun task =>
              { task with blockTo := none, finishTo := none }) :=
            writes_link rfl rfl
          exact writes_trans linked (writes_frame rfl rfl rfl rfl rfl)
        · cases taken
      · split at taken
        · exact writes_objectStep taken
        · cases taken
  | some k =>
      rw [exec] at taken
      dsimp only at taken
      cases found : s.contexts k with
      | none =>
          rw [found] at taken
          cases taken
      | some context =>
          have shown : context ∈ running s := by
            rw [running, exec]
            exact found
          rw [found] at taken
          dsimp only [contextStep] at taken
          split at taken
          · unfold coroutineStep at taken
            split at taken
            · cases taken
              exact writes_moveTo _
            · rename_i which children point kind
              refine writes_runGroup (fun unready => ⟨context, shown, point, rfl, ?_⟩) taken
              rw [kind]
              exact unready
            · cases taken
              exact writes_moveTo _
            · rename_i point
              exact writes_yieldReturn shown point taken
            · rename_i point
              exact writes_runReturn shown point taken
            · rename_i point
              have handled : Writes s .tau s (s.setStatus context.inner .canceled) :=
                writes_restate _ ⟨context, shown, .handled point⟩
              exact writes_trans handled (writes_cancelTask shown taken)
            · rename_i kind _ _ _ _ _
              exact writes_groupStep shown kind taken
            · cases taken
          · rename_i kind
            refine writes_trans ?_ (writes_taskYield taken)
            exact .single (.arm context shown kind rfl)
          · cases taken
            exact writes_moveTo _
          · exact writes_objectStep taken
          · unfold userStep at taken
            split at taken
            · exact writes_await taken
            · exact writes_start taken
            · cases taken
              exact writes_moveTo _
            · exact writes_objectStep taken
          · cases taken

theorem write_next {x x' : State} (write : Write s label x x') : x.next ≤ x'.next := by
  cases write with
  | frame _ _ _ next => exact Nat.le_of_eq next.symm
  | build _ _ _ _ _ _ next => omega
  | _ => exact Nat.le_refl _

theorem write_live {x x' : State} (write : Write s label x x') {t : Nat} (allocated : t < x.next)
    (alive : x'.live t = true) : x.live t = true := by
  cases write with
  | frame _ _ _ _ _ live => exact live t alive
  | build _ _ _ _ _ _ _ _ live =>
      rw [live, Function.update_of_ne (Nat.ne_of_lt allocated)] at alive
      exact alive
  | _ => exact alive

theorem write_kind {x x' : State} (write : Write s label x x') {t : Nat} (allocated : t < x.next) :
    (x'.tasks t).kind = (x.tasks t).kind := by
  have set (other : Nat) (change : Task → Task)
      (kind : (change (x.tasks other)).kind = (x.tasks other).kind) :
      ((x.setTask other change).tasks t).kind = (x.tasks t).kind := by
    by_cases here : t = other
    · subst here
      rw [setTask_self, kind]
    · rw [setTask_other _ _ _ here]
  cases write with
  | frame _ tasks => rw [tasks]
  | link other change _ kind => exact set other change kind
  | restate other change status _ kind => exact set other change kind
  | begins other change _ kind => exact set other change kind
  | finishes other => exact set other ({ · with status := .completed }) rfl
  | arm => rfl
  | disarm => rfl
  | build task _ _ _ tasks => rw [tasks, Function.update_of_ne (Nat.ne_of_lt allocated)]

theorem write_status {x x' : State} (write : Write s label x x') {t : Nat}
    (allocated : t < x.next) :
    (x'.tasks t).status = (x.tasks t).status ∨ Becomes s t (x'.tasks t).status ∨
      (x'.tasks t).status = .running ∧ x.live t = true := by
  have set (other : Nat) (change : Task → Task) (gives : t = other →
      (change (x.tasks t)).status = (x.tasks t).status ∨ Becomes s t (change (x.tasks t)).status ∨
        (change (x.tasks t)).status = .running ∧ x.live t = true) :
      ((x.setTask other change).tasks t).status = (x.tasks t).status ∨
        Becomes s t ((x.setTask other change).tasks t).status ∨
        ((x.setTask other change).tasks t).status = .running ∧ x.live t = true := by
    by_cases here : t = other
    · subst here
      rw [setTask_self]
      exact gives rfl
    · rw [setTask_other _ _ _ here]
      exact Or.inl rfl
  cases write with
  | frame _ tasks => exact Or.inl (by rw [tasks])
  | link other change status =>
      refine set other change fun here => Or.inl ?_
      subst here
      exact status
  | restate other change status gives _ why =>
      refine set other change fun here => Or.inr (Or.inl ?_)
      subst here
      rw [gives]
      exact why
  | begins other change gives _ alive =>
      refine set other change fun here => Or.inr (Or.inr ?_)
      subst here
      exact ⟨gives, alive⟩
  | finishes other why =>
      refine set other ({ · with status := .completed }) fun here => ?_
      subst here
      exact Or.inr (Or.inl why)
  | arm => exact Or.inl rfl
  | disarm => exact Or.inl rfl
  | build task _ _ _ tasks =>
      rw [tasks, Function.update_of_ne (Nat.ne_of_lt allocated)]
      exact Or.inl rfl

/-- The status of a task changes only for a reason, and never back to that of a new task. -/
theorem step_status (taken : step s label = some s') {t : Nat} (allocated : t < s.next) :
    (s'.tasks t).status = (s.tasks t).status ∨ Becomes s t (s'.tasks t).status := by
  have writes := step_writes taken
  suffices s.next ≤ s'.next ∧ (s'.live t = true → s.live t = true) ∧
      ((s'.tasks t).status = (s.tasks t).status ∨ Becomes s t (s'.tasks t).status) from this.2.2
  clear taken
  induction writes with
  | refl => exact ⟨Nat.le_refl _, id, Or.inl rfl⟩
  | @tail x y _ write ih =>
      obtain ⟨grows, older, before⟩ := ih
      have within : t < x.next := Nat.lt_of_lt_of_le allocated grows
      refine ⟨Nat.le_trans grows (write_next write), older ∘ write_live write within, ?_⟩
      rcases write_status write within with same | why | ⟨runs, alive⟩
      · rw [same]
        exact before
      · exact Or.inr why
      · rw [runs]
        exact Or.inr (older alive)

theorem step_parents (taken : step s label = some s')
    (before : ∀ t < s.next, ∀ which, (s.tasks t).kind ≠ .group which []) :
    ∀ t < s'.next, ∀ which, (s'.tasks t).kind ≠ .group which [] := by
  have writes := step_writes taken
  clear taken
  induction writes with
  | refl => exact before
  | @tail x y _ write ih =>
      intro t allocated which
      by_cases older : t < x.next
      · rw [write_kind write older]
        exact ih t older which
      · cases write with
        | build task _ parent _ tasks _ next =>
            obtain rfl : t = x.next := by omega
            rw [tasks, Function.update_self]
            exact parent which
        | frame _ _ _ next => omega
        | _ => exact absurd allocated older

theorem step_armed (taken : step s label = some s') (t : Nat) :
    s'.armed t = s.armed t ∨ s'.armed t = true ∧ (∃ context ∈ running s, t = context.inner ∧
        (s.tasks t).kind = .event ∧ label = .block) ∨
      s'.armed t = false ∧ (label = .event t ∨ ∃ context ∈ running s, t = context.inner) := by
  have writes := step_writes taken
  clear taken
  induction writes with
  | refl => exact Or.inl rfl
  | @tail x y _ write ih =>
      cases write with
      | frame _ _ armed => rwa [armed]
      | build _ _ _ _ _ armed => rwa [armed]
      | arm context shown kind why =>
          by_cases here : t = context.inner
          · subst here
            refine Or.inr (Or.inl ⟨Function.update_self .., context, shown, rfl, kind, why⟩)
          · change Function.update x.armed _ _ t = _ ∨ Function.update x.armed _ _ t = _ ∧ _ ∨
              Function.update x.armed _ _ t = _ ∧ _
            rwa [Function.update_of_ne here]
      | disarm other why =>
          by_cases here : t = other
          · subst here
            exact Or.inr (Or.inr ⟨Function.update_self .., why⟩)
          · change Function.update x.armed _ _ t = _ ∨ Function.update x.armed _ _ t = _ ∧ _ ∨
              Function.update x.armed _ _ t = _ ∧ _
            rwa [Function.update_of_ne here]
      | _ => exact ih

theorem step_done (taken : step s label = some s') :
    s'.done = s.done ∨ ∃ t, Becomes s t .completed ∧ s'.done = s.done ++ [t] := by
  have writes := step_writes taken
  clear taken
  induction writes with
  | refl => exact Or.inl rfl
  | @tail x y _ write ih =>
      cases write with
      | frame _ _ _ _ done => rwa [done]
      | build _ _ _ _ _ _ _ done => rwa [done]
      | finishes t why first => exact Or.inr ⟨t, why, congrArg (· ++ [t]) first⟩
      | _ => exact ih

end Steps

end Cocoflow.SchedulerWrites
