import Mathlib.Data.List.Basic
import Mathlib.Logic.Function.Basic
import Cocoflow.SchedulerIds

/-!
The cancellation of a child, from the signal that `__task_cancel_children` raises to the
return of control. A coroutine that is being unwound calls the `cancel()` of its tasks from
the innermost one outwards; where that is a combinator, its own children are unwound before,
on coroutines above. One lemma says all that a step of such a coroutine can do. From it
follows that control comes back, and what it leaves behind, for every chain of awaits.
-/

namespace Cocoflow.SchedulerUnwinding

open LabelledRuns Scheduler SchedulerNest SchedulerLocal SchedulerSteps SchedulerCancel
open SchedulerCalls SchedulerSwitch SchedulerRuns SchedulerFrame SchedulerContracts SchedulerIds

def cancelCall (s : State) : Label → List Nat
  | .tau =>
      match running s with
      | none => []
      | some context =>
          match context.point with
          | .throwing => [context.inner]
          | .yielded _ =>
              if s.signal = true ∧ (s.tasks context.inner).status = .canceled then [context.inner]
              else []
          | _ => []
  | _ => []

/-- The body of the innermost task is executed: a statement of a user, or of `all_of::run` or
`any_of::run`. -/
def inBody : Point → Bool
  | .enter | .user | .inStart _ | .starting _ _ | .started _ _ | .waiting _ | .goal => true
  | .cancelLoop _ _ caller | .canceling _ _ caller | .cancelWait _ caller => caller = .anyRun
  | _ => false

def cancelBegun : Point → Bool
  | .cancelLoop _ _ _ | .canceling _ _ _ | .returning => true
  | _ => false

def shown (context : Context) : List Nat :=
  if cancelBegun context.point then [context.inner] else []

/-- A bound for the steps that a coroutine still takes until it is unwound. -/
def weight (s : State) (context : Context) : Nat :=
  let children := (childrenOf (s.tasks context.inner).kind).length
  4 * context.awaits.length +
    match context.point with
    | .yielded _ => 2 * children + 8
    | .throwing => 2 * children + 6
    | .cancelLoop i _ _ => 2 * (children - i) + 5
    | .canceling i _ _ => 2 * (children - i) + 4
    | .returning => 2
    | _ => 0

/-- What one step of the library does on a coroutine that is being unwound. -/
inductive Unrolls (s : State) (l : Nat) (context : Context) (s' : State) : Prop where
  | stays (point : Point)
      (contexts : s'.contexts = Function.update s.contexts l (some { context with point := point }))
      (calls : shown { context with point := point } = shown context ++ cancelCall s .tau)
      (lighter : weight s { context with point := point } < weight s context)
      (onward : ∀ at_, point ≠ .yielded at_)
  | pops (frame : Frame) (outer : List Frame) (awaits : context.awaits = frame :: outer)
      (contexts : s'.contexts = Function.update s.contexts l
        (some { context with awaits := outer, point := .throwing }))
      (calls : shown context ++ cancelCall s .tau = [context.inner])
      (lighter : weight s { context with awaits := outer, point := .throwing } < weight s context)
      (status : (s'.tasks context.inner).status = .canceled)
      (reuse : (s'.tasks context.inner).reuse = none)
      (uid : (s'.tasks context.inner).uid = none)
  | ends (q : Nat) (alone : context.awaits = [])
      (finish : (s.tasks context.base).finishTo = some q)
      (contexts : s'.contexts = Function.update s.contexts l none)
      (calls : shown context ++ cancelCall s .tau = [context.inner])
      (weighs : 0 < weight s context)
      (status : (s'.tasks context.base).status = .canceled)
      (reuse : (s'.tasks context.base).reuse = none)
      (exec : s'.exec = some q) (signal : s'.signal = false)

def Writes (s : State) (nest : Nest) (context : Context) (s' : State) : Prop :=
  ∀ t, t ∉ context.chain →
    (∀ q other, s.contexts q = some other → modeOf nest q = .parked → t ∉ other.chain) →
    s'.tasks t = s.tasks t

def canceledIn (s : State) (context : Context) (armed : Nat → Bool) : State :=
  { s.setStatus context.inner .canceled with armed := armed }

def Unrolling (s : State) (nest : Nest) (l : Nat) (context : Context) (next : Option State) :
    Prop :=
  ∃ s', next = some s' ∧ Unrolls s l context s' ∧ Writes s nest context s'

section Unroll

variable {s s' : State} {l : Nat} {rest nest : Nest} {context : Context} {armed : Nat → Bool}

theorem writes_inner (kept : ∀ t, t ≠ context.inner → s'.tasks t = s.tasks t) :
    Writes s nest context s' := by
  intro t away _
  apply kept
  rintro rfl
  exact away (inner_mem context)

theorem canceledIn_inner :
    (canceledIn s context armed).tasks context.inner =
      { s.tasks context.inner with status := .canceled } := Function.update_self ..

theorem canceledIn_other {t : Nat} (apart : t ≠ context.inner) :
    (canceledIn s context armed).tasks t = s.tasks t := Function.update_of_ne apart ..

theorem canceledIn_self (canceled : (s.tasks context.inner).status = .canceled) :
    canceledIn s context s.armed = s := by
  have tasks := setStatus_same canceled
  unfold canceledIn
  simp only [State.setStatus, State.setTask] at tasks ⊢
  rw [tasks]

theorem cancelling_below (inv : Invariant s ((l, .cancelling) :: rest))
    (found : s.contexts l = some context) :
    ∃ q mode below lower i unsupport caller, rest = (q, mode) :: below ∧ q ≠ l ∧
      s.contexts q = some lower ∧ lower.point = .canceling i unsupport caller ∧
      (s.tasks context.base).finishTo = some q := by
  cases rest with
  | nil => cases inv.nested.2
  | cons entry below =>
      obtain ⟨q, mode⟩ := entry
      obtain ⟨upper, lower, same, there, -, waits⟩ := inv.nested.1
      rw [found] at same
      cases same
      cases point : lower.point with
      | canceling i unsupport caller =>
          simp only [point] at waits
          exact ⟨q, mode, below, lower, i, unsupport, caller, rfl,
            (below_found inv found rfl).1, there, point, waits.2.1⟩
      | inStart target =>
          simp only [point] at waits
          cases waits.2.1
      | started i count =>
          simp only [point] at waits
          cases waits.1
      | _ => simp [point] at waits

theorem unroll_rethrows (inv : Invariant s ((l, .cancelling) :: rest))
    (found : s.contexts l = some context) {frame : Frame} {outer : List Frame}
    (awaits : context.awaits = frame :: outer)
    (calls : shown context ++ cancelCall s .tau = [context.inner])
    (heavy : 4 * outer.length + 6 < weight s context) :
    Unrolling s nest l context
      (some (awaitRethrow (canceledIn s context armed) l context frame outer)) := by
  have sound := inv.sound l context found
  rw [modeOf_head] at sound
  obtain ⟨inner, chain⟩ := popped_chain .throwing awaits
  obtain ⟨parent, callers⟩ := popped_inner .throwing sound awaits
  have absent := popped_absent .throwing sound awaits
  have apart : frame.parent ≠ frame.target := by
    intro same
    rw [callers, same] at absent
    exact absent List.mem_cons_self
  have user : (s.tasks frame.parent).kind = .user := by
    refine (sound.outer frame.parent ?_).1
    rw [chain, List.tail_cons, callers]
    exact List.mem_cons_self
  have target : (awaitRethrow (canceledIn s context armed) l context frame outer).tasks
      context.inner = { s.tasks context.inner with status := .canceled, uid := none } := by
    rw [inner]
    simp only [awaitRethrow, State.setContext, setTask_self, setTask_other _ _ _ apart.symm]
    rw [← inner, canceledIn_inner]
  refine ⟨_, rfl, .pops frame outer awaits rfl calls ?_ ?_ ?_ ?_, fun t away _ => ?_⟩
  · unfold weight
    rw [parent, user]
    simpa [childrenOf, weight] using heavy
  · rw [target]
  · rw [target]
    have mirrors := sound.mirrors
    rw [chain_cons] at mirrors
    exact mirrors.1
  · rw [target]
  · have different : t ≠ frame.target := by
      rintro rfl
      rw [chain] at away
      exact away List.mem_cons_self
    have further : t ≠ frame.parent := by
      rintro rfl
      rw [chain, callers] at away
      exact away (List.mem_cons_of_mem _ List.mem_cons_self)
    simp only [awaitRethrow, State.setContext, setTask_other _ _ _ different,
      setTask_other _ _ _ further]
    exact canceledIn_other (inner ▸ different)

theorem unroll_finishes (inv : Invariant s ((l, .cancelling) :: rest))
    (found : s.contexts l = some context) (alone : context.awaits = [])
    (calls : shown context ++ cancelCall s .tau = [context.inner])
    (weighs : 0 < weight s context) (awake : s.signal = false) :
    Unrolling s nest l context (runtimeFinish (canceledIn s context armed) l context) := by
  obtain ⟨q, mode, below, lower, i, unsupport, caller, rfl, apart, there, -, finish⟩ :=
    cancelling_below inv found
  have sound := inv.sound l context found
  have inner : context.inner = context.base := by
    unfold Context.inner
    rw [alone]
  have base : (canceledIn s context armed).tasks context.base =
      { s.tasks context.base with status := .canceled } := by
    rw [← inner, canceledIn_inner]
  have back : ((canceledIn s context armed).tasks context.base).finishTo = some q := by
    rw [base]
    exact finish
  have moved : runtimeFinish (canceledIn s context armed) l context =
      some { canceledIn s context armed with
        contexts := Function.update s.contexts l none
        exec := some q
        current := s.manager q } := by
    unfold runtimeFinish
    simp only [back]
    rw [if_neg (by simp), if_pos (by simp), swapRunning_back]
    · rfl
    · exact inv.exec.symm
    · intro q' same
      cases same
      exact ⟨lower, (Function.update_of_ne apart _ _).trans there⟩
  refine ⟨_, moved, .ends q alone finish rfl calls weighs ?_ ?_ rfl awake,
    writes_inner fun t different => ?_⟩
  · change ((canceledIn s context armed).tasks context.base).status = .canceled
    rw [base]
  · change ((canceledIn s context armed).tasks context.base).reuse = none
    rw [base]
    have mirrors := sound.mirrors
    rw [chain_cons, inner] at mirrors
    exact mirrors.1
  · change (canceledIn s context armed).tasks t = s.tasks t
    exact canceledIn_other different

theorem unroll_moves {moved : State} {point : Point}
    (contexts : moved.contexts = Function.update s.contexts l (some { context with point := point }))
    (calls : shown { context with point := point } = shown context ++ cancelCall s .tau)
    (lighter : weight s { context with point := point } < weight s context)
    (onward : ∀ at_, point ≠ .yielded at_) (kept : Writes s nest context moved) :
    Unrolling s nest l context (some moved) :=
  ⟨moved, rfl, .stays point contexts calls lighter onward, kept⟩

theorem cancelCall_running (exec : s.exec = some l) (found : s.contexts l = some context) :
    cancelCall s .tau =
      match context.point with
      | .throwing => [context.inner]
      | .yielded _ =>
          if s.signal = true ∧ (s.tasks context.inner).status = .canceled then [context.inner]
          else []
      | _ => [] := by
  simp only [cancelCall, running, exec, Option.bind_some, found]

theorem unroll_yielded (inv : Invariant s ((l, .cancelling) :: rest))
    (found : s.contexts l = some context) {at_ : YieldAt} (point : context.point = .yielded at_) :
    Unrolling s nest l context (yieldReturn s l context at_) := by
  have raised := inv.signal.mpr ⟨l, context, rest, at_, rfl, found, point⟩
  have call := cancelCall_running inv.exec found
  have placed := placed_of inv found
  simp only [point, raised, true_and] at call
  by_cases selected : (s.tasks context.inner).status = .canceled
  · -- the base of the coroutine: `cancel()` is called in place
    have alone := selected_base inv found point selected
    rw [if_pos selected] at call
    cases at_ with
    | event =>
        simp only [Placed, point] at placed
        simp only [yieldReturn, raised, selected, cancelTask, placed, cancelReturn, if_true,
          ne_eq, not_true_eq_false, if_false]
        refine unroll_moves rfl ?_ ?_ (by simp) (writes_inner fun _ _ => rfl)
        · simp [shown, point, cancelBegun, call, moves_inner]
        · simp [weight, point, alone]
    | wait count =>
        simp only [Placed, point] at placed
        obtain ⟨which, children, kind, -⟩ := placed
        simp only [yieldReturn, raised, selected, cancelTask, kind, if_true, ne_eq,
          not_true_eq_false, if_false]
        refine unroll_moves rfl ?_ ?_ (by simp) (writes_inner fun _ _ => rfl)
        · simp [shown, point, cancelBegun, call, moves_inner]
        · simp [weight, point, moves_inner]
    | cancelWait unsupport caller =>
        simp only [Placed, point] at placed
        exact absurd rfl placed.2.1
  · -- the exception is thrown
    rw [if_neg selected] at call
    have thrown : yieldReturn s l context at_ =
        some (({ s with signal := false }.setStatus context.inner .canceled).moveTo l context
          .throwing) := by
      cases at_ with
      | cancelWait unsupport caller =>
          simp only [Placed, point] at placed
          exact absurd rfl placed.2.1
      | _ => simp [yieldReturn, raised, selected]
    rw [thrown]
    refine unroll_moves rfl ?_ ?_ (by simp) (writes_inner fun t apart => ?_)
    · simp [shown, point, cancelBegun, call]
    · simp [weight, point, moves_inner]
    · exact Function.update_of_ne apart ..

theorem unroll_throwing (inv : Invariant s ((l, .cancelling) :: rest))
    (found : s.contexts l = some context) (point : context.point = .throwing) :
    Unrolling s nest l context (runThrow s l context) := by
  have call := cancelCall_running inv.exec found
  simp only [point] at call
  have awake := signal_false inv found (Or.inr (by simp [point]))
  have calls : shown context ++ cancelCall s .tau = [context.inner] := by
    simp [shown, point, cancelBegun, call]
  have handled (armed : Nat → Bool) : Unrolling s nest l context
      (cancelReturn (canceledIn s context armed) l context
        (if context.awaits = [] then .runtime else .await)) := by
    cases awaits : context.awaits with
    | nil =>
        rw [if_pos rfl]
        refine unroll_finishes inv found awaits calls ?_ awake
        simp only [weight, point]
        omega
    | cons frame outer =>
        rw [if_neg (by simp)]
        simp only [cancelReturn, awaits]
        refine unroll_rethrows inv found awaits calls ?_
        simp [weight, point, awaits]
        omega
  have same : ((s.setStatus context.inner .canceled).tasks context.inner).kind =
      (s.tasks context.inner).kind := by
    rw [State.setStatus, setTask_self]
  unfold runThrow cancelTask
  rw [same]
  cases kind : (s.tasks context.inner).kind with
  | user => exact handled s.armed
  | event => exact handled (Function.update s.armed context.inner false)
  | group which children =>
      refine unroll_moves rfl ?_ ?_ (by simp) (writes_inner fun t apart => ?_)
      · simp [shown, point, cancelBegun, call, moves_inner]
      · simp [weight, point, moves_inner]
      · exact Function.update_of_ne apart ..

theorem unroll_round (inv : Invariant s ((l, .cancelling) :: rest))
    (found : s.contexts l = some context) {i unsupport : Nat} {caller : CancelCaller}
    {which : Combinator} {children : List Nat}
    (point : context.point = .cancelLoop i unsupport caller)
    (kind : (s.tasks context.inner).kind = .group which children)
    (atOnce : delays children context.point = false) :
    Unrolling s ((l, .cancelling) :: rest) l context
      (cancelRound s l context children i unsupport caller) := by
  have call := cancelCall_running inv.exec found
  simp only [point] at call
  have silent (next : Point) (inside : cancelBegun next = true) :
      shown { context with point := next } = shown context ++ cancelCall s .tau := by
    have now : cancelBegun context.point = true := by rw [point]; rfl
    rw [call, shown, shown, if_pos inside, if_pos now, moves_inner, List.append_nil]
  unfold cancelRound
  cases here : children[i]? with
  | none =>
      obtain ⟨family, count, calls⟩ := cancelLoop_ended inv found point kind here
      -- only `any_of::run` may wait here, and it is not being unwound
      have returns : unsupport = 0 := by
        by_contra waiting
        have any : caller = .anyRun := by simpa [delays, point, here, waiting] using atOnce
        subst any
        obtain ⟨live, bad⟩ := calls.1
        cases bad
      have awake := signal_false inv found (Or.inr (by simp [point]))
      have calls_ : shown context ++ cancelCall s .tau = [context.inner] := by
        simp [shown, point, cancelBegun, call]
      subst returns
      simp only [if_true]
      cases caller with
      | anyRun =>
          obtain ⟨live, bad⟩ := calls.1
          cases bad
      | yield =>
          refine unroll_moves rfl (silent _ rfl) ?_ (by simp) (writes_inner fun _ _ => rfl)
          simp [weight, point]
      | await =>
          obtain ⟨-, inside, canceled⟩ := calls
          cases awaits : context.awaits with
          | nil => exact absurd awaits inside
          | cons frame outer =>
              have rethrows := @unroll_rethrows s l rest ((l, .cancelling) :: rest) context s.armed
                inv found frame outer awaits calls_ (by
                  simp [weight, point, awaits]
                  omega)
              rw [canceledIn_self canceled] at rethrows
              simpa only [cancelReturn, awaits] using rethrows
      | runtime =>
          obtain ⟨-, alone⟩ := calls
          have inner : context.inner = context.base := by
            unfold Context.inner
            rw [alone]
          have canceled : (s.tasks context.inner).status = .canceled := by
            rw [inner]
            exact (unwound inv found).1
          have finishes := @unroll_finishes s l rest ((l, .cancelling) :: rest) context s.armed
            inv found alone calls_ (by
              simp only [weight, point]
              omega) awake
          rw [canceledIn_self canceled] at finishes
          exact finishes
      | cancelWait => exact calls.elim
  | some child =>
      have inside : cancels context.point = true := by rw [point]; rfl
      have member : child ∈ children := List.mem_of_getElem? here
      have family := placed_family (placed_of inv found) kind (cancels_opened inside)
      have bound : i < children.length := (List.getElem?_eq_some_iff.mp here).1
      have lighter (count : Nat) : weight s { context with point := .cancelLoop (i + 1) count caller }
          < weight s context := by
        simp [weight, point, moves_inner, kind, childrenOf]
        omega
      simp only [family.live child member]
      by_cases runs : (s.tasks child).status = .running
      · obtain ⟨q, other, there, base, uid, finish, apart, parked⟩ :=
          running_child inv found kind inside member runs
        subst base
        have owner := ((inv.sound l context found).owned _ (inner_mem context)).2
        simp only [runs, if_true]
        -- either a task of the child is uninterruptable, or its coroutine is unwound next
        rcases protector_chain inv there with
          ⟨final, before, after, walk, marked, split, open_⟩ | ⟨walk, open_⟩
        · rw [walk]
          refine unroll_moves ?_ (silent _ rfl) (lighter (unsupport + 1)) (by simp)
            fun t away elsewhere => ?_
          · split <;> rfl
          · have different : t ≠ final := by
              rintro rfl
              exact elsewhere q other there parked (by simp [split])
            split
            · exact Function.update_of_ne different ..
            · rfl
        · rw [walk, owner, uid, swapRunning_back]
          · refine unroll_moves rfl (silent _ rfl) ?_ (by simp) fun t away elsewhere => ?_
            · simp [weight, point, moves_inner]
            · have different : t ≠ other.base := by
                rintro rfl
                exact elsewhere q other there parked (base_mem other)
              exact Function.update_of_ne different ..
          · exact inv.exec.symm
          · intro q' going
            cases going
            exact ⟨other, (Function.update_of_ne apart _ _).trans there⟩
      · simp only [runs, if_false]
        exact unroll_moves rfl (silent _ rfl) (lighter _) (by simp) (writes_inner fun _ _ => rfl)

/-- What a step of the library does on a coroutine that is being unwound. It cannot fail. -/
theorem unroll_tau (inv : Invariant s ((l, .cancelling) :: rest))
    (found : s.contexts l = some context) (atOnce : CancelsAtOnce s .tau) :
    Unrolling s ((l, .cancelling) :: rest) l context (step s .tau) := by
  have exec : s.exec = some l := inv.exec
  have placed := placed_of inv found
  have taken : step s .tau = coroutineStep s l context := by
    simp only [step, exec, found, contextStep]
  have call := cancelCall_running exec found
  rw [taken]
  unfold coroutineStep
  cases point : context.point with
  | yielded at_ => exact unroll_yielded inv found point
  | throwing => exact unroll_throwing inv found point
  | cancelLoop i unsupport caller =>
      have quick := atOnce context (by rw [running, exec]; exact found)
      simp only [Placed, point] at placed
      obtain ⟨which, children, kind, -⟩ := placed
      simp only [kind, groupStep]
      rw [kind] at quick
      exact unroll_round inv found point kind quick
  | canceling i unsupport caller =>
      simp only [Placed, point] at placed
      obtain ⟨which, children, child, kind, -, here, -⟩ := placed
      have bound : i < children.length := (List.getElem?_eq_some_iff.mp here).1
      simp only [point] at call
      simp only [kind, groupStep]
      refine unroll_moves rfl ?_ ?_ (by simp) (writes_inner fun _ _ => rfl)
      · simp [shown, point, cancelBegun, call, moves_inner]
      · simp [weight, point, moves_inner, kind, childrenOf]
        omega
  | returning =>
      simp only [Placed, point] at placed
      have alone : context.awaits = [] := by
        rcases placed with ⟨token, bad⟩ | ⟨-, alone⟩
        · cases bad
        · exact alone
      have inner : context.inner = context.base := by
        unfold Context.inner
        rw [alone]
      have canceled : (s.tasks context.base).status = .canceled := (unwound inv found).1
      have finishes := @unroll_finishes s l rest ((l, .cancelling) :: rest) context s.armed
        inv found alone (by simp [shown, point, cancelBegun, call]) (by
          simp only [weight, point]
          omega)
        (signal_false inv found (Or.inr (by simp [point])))
      rw [canceledIn_self (by rw [inner]; exact canceled)] at finishes
      simpa [runReturn, alone, canceled] using finishes
  | cancelWait unsupport caller =>
      simp only [Placed, point] at placed
      obtain ⟨token, bad⟩ := placed.2.1
      cases bad
  | _ =>
      simp only [Placed, point] at placed
      obtain ⟨token, bad⟩ := placed.1
      cases bad

end Unroll

section Stack

variable {s s' : State} {l : Nat} {rest : Nest} {context next : Context} {label : Label}

theorem unwinding_label (inv : Invariant s ((l, .cancelling) :: rest))
    (found : s.contexts l = some context) (taken : step s label = some s') :
    label = .tau ∨ ∃ t, label = .destroy t ∧ objectStep s (.destroy t) = some s' := by
  have exec : s.exec = some l := inv.exec
  have placed := placed_of inv found
  have outside : context.point ≠ .enter ∧ context.point ≠ .user := by
    constructor <;>
    · intro point
      simp only [Placed, point] at placed
      obtain ⟨token, bad⟩ := placed.1
      cases bad
  simp only [step, exec, found] at taken
  unfold contextStep at taken
  split at taken
  · exact Or.inl rfl
  · rename_i point _
    exact absurd point outside.1
  · rename_i point _
    exact absurd point outside.1
  · rename_i t _ _
    exact Or.inr ⟨t, rfl, taken⟩
  · rename_i point _
    exact absurd point outside.2
  · cases taken

/-- A coroutine that is being unwound and stays on the stack can only have been covered by
another one that is to be unwound. -/
theorem nest_covered (inv : Invariant s ((l, .cancelling) :: rest)) (kept : Kept s s' ((l, .cancelling) :: rest))
    (there : s'.contexts l = some next) (onward : ∀ at_, next.point ≠ .yielded at_) :
    ∃ above, (∀ entry ∈ above, entry.2 = Mode.cancelling) ∧
      Invariant s' (above ++ (l, .cancelling) :: rest) := by
  obtain ⟨after, inv', turn⟩ := kept
  cases turn with
  | stays => exact ⟨[], by simp, inv'⟩
  | pushes q mode _ place =>
      refine ⟨[(q, mode)], ?_, inv'⟩
      obtain ⟨upper, lower, -, below, -, waits⟩ := inv'.nested.1
      rw [there] at below
      cases below
      have apart : l ≠ q := by
        rintro rfl
        obtain ⟨head, running⟩ := head_found inv'.nested
        exact head_not_below inv' running (by simp)
      have placed := (inv'.sound l next there).placed
      rw [modeOf_tail _ _ apart, modeOf_head] at placed
      cases point : next.point <;> simp only [point] at waits
      case inStart => simp [Placed, point, Mode.Live] at placed
      case started => simp [Placed, point, Mode.Live] at placed
      case canceling => simpa using waits.1
  | pops _ _ _ _ left =>
      obtain ⟨at_, point⟩ := left next there
      exact absurd point (onward at_)
  | wakes => cases inv.nested.2

theorem nest_uncovered (inv : Invariant s ((l, .cancelling) :: rest))
    (kept : Kept s s' ((l, .cancelling) :: rest)) (gone : s'.contexts l = none) :
    Invariant s' rest := by
  obtain ⟨after, inv', turn⟩ := kept
  cases turn with
  | stays =>
      obtain ⟨head, there⟩ := head_found inv'.nested
      rw [gone] at there
      cases there
  | pushes q mode _ _ =>
      obtain ⟨upper, lower, -, below, -⟩ := inv'.nested.1
      rw [gone] at below
      cases below
  | pops => exact inv'
  | wakes => cases inv.nested.2

end Stack

def burden (s : State) (t : Nat) : Nat :=
  match (s.tasks t).uid.bind s.contexts with
  | some context => if context.base = t then weight s context else 0
  | none => 0

/-- What is left to do for a task: to destroy it, and to unwind the coroutine it is the base
of. -/
def load (s : State) (t : Nat) : Nat := (if s.live t then 1 else 0) + burden s t

def loadsOf (s : State) : Nat → Nat
  | 0 => 0
  | t + 1 => loadsOf s t + load s t

def loads (s : State) : Nat := loadsOf s s.next

section Measure

variable {s s' : State} {l : Nat} {rest nest : Nest} {context : Context}

theorem loadsOf_kept {bound : Nat} (kept : ∀ t < bound, load s' t ≤ load s t) :
    loadsOf s' bound ≤ loadsOf s bound := by
  induction bound with
  | zero => exact Nat.le_refl _
  | succ bound ih =>
      have before := ih fun t inside => kept t (Nat.lt_succ_of_lt inside)
      have last := kept bound (Nat.lt_succ_self bound)
      simp only [loadsOf]
      omega

theorem loadsOf_less {bound : Nat} (kept : ∀ t < bound, load s' t ≤ load s t) {t : Nat}
    (inside : t < bound) (less : load s' t < load s t) : loadsOf s' bound < loadsOf s bound := by
  induction bound with
  | zero => cases inside
  | succ bound ih =>
      have earlier : ∀ t < bound, load s' t ≤ load s t :=
        fun t inside => kept t (Nat.lt_succ_of_lt inside)
      simp only [loadsOf]
      rcases Nat.lt_succ_iff_lt_or_eq.mp inside with before | rfl
      · have strictly := ih earlier before
        have last := kept bound (Nat.lt_succ_self bound)
        omega
      · have before := loadsOf_kept earlier
        omega

theorem loads_less (next : s'.next = s.next) (kept : ∀ t < s.next, load s' t ≤ load s t) {t : Nat}
    (bound : t < s.next) (less : load s' t < load s t) : loads s' < loads s := by
  unfold loads
  rw [next]
  exact loadsOf_less kept bound less

structure Lightens (s s' : State) (l : Nat) (context : Context) : Prop where
  next : s'.next = s.next
  live : ∀ t, s'.live t = true → s.live t = true
  uid : ∀ t, (s'.tasks t).uid = (s.tasks t).uid ∨ (s'.tasks t).uid = none
  kind : ∀ t < s.next, (s'.tasks t).kind = (s.tasks t).kind
  contexts : ∀ q, q ≠ l → s'.contexts q = s.contexts q
  here : ∀ after, s'.contexts l = some after → after.base = context.base ∧
    after.inner ∈ context.chain ∧ weight s after < weight s context
  weighs : 0 < weight s context

theorem weight_congr (kind : (s'.tasks context.inner).kind = (s.tasks context.inner).kind) :
    weight s' context = weight s context := by
  unfold weight
  rw [kind]

theorem lightens_loads (inv : Invariant s nest) (found : s.contexts l = some context)
    (lightens : Lightens s s' l context) : loads s' < loads s := by
  have bounded {q : Nat} {other : Context} {t : Nat} (there : s.contexts q = some other)
      (member : t ∈ other.chain) : t < s.next :=
    inv.bounded t ((inv.sound q other there).owned t member).1
  have alive (t : Nat) : (if s'.live t then 1 else 0) ≤ (if s.live t then 1 else 0) := by
    split
    · rename_i live
      exact Nat.le_of_eq (if_pos (lightens.live t live)).symm
    · exact Nat.zero_le _
  have owner := ((inv.sound l context found).owned _ (base_mem context)).2
  have less : load s' context.base < load s context.base := by
    have still := alive context.base
    unfold load burden
    rw [owner, Option.bind_some, found]
    simp only [if_true]
    have weighs := lightens.weighs
    rcases lightens.uid context.base with same | gone
    · rw [same, owner, Option.bind_some]
      cases there : s'.contexts l with
      | none =>
          dsimp only
          omega
      | some after =>
          obtain ⟨base, inner, lighter⟩ := lightens.here after there
          have same := weight_congr (lightens.kind _ (bounded found inner))
          simp only [base, if_true]
          omega
    · rw [gone, Option.bind_none]
      dsimp only
      omega
  refine loads_less lightens.next (fun t _ => ?_) (bounded found (base_mem context)) less
  by_cases here : t = context.base
  · exact here ▸ Nat.le_of_lt less
  · refine Nat.add_le_add (alive t) ?_
    unfold burden
    rcases lightens.uid t with same | gone
    · rw [same]
      cases uid : (s.tasks t).uid with
      | none => exact Nat.le_refl _
      | some q =>
          rw [Option.bind_some, Option.bind_some]
          by_cases apart : q = l
          · subst apart
            cases there : s'.contexts q with
            | none => exact Nat.zero_le _
            | some after =>
                dsimp only
                rw [if_neg]
                · exact Nat.zero_le _
                · rw [(lightens.here after there).1]
                  exact Ne.symm here
          · rw [lightens.contexts q apart]
            cases there : s.contexts q with
            | none => exact Nat.le_refl _
            | some other =>
                dsimp only
                have same := weight_congr (lightens.kind _ (bounded there (inner_mem other)))
                simp only [same, Nat.le_refl]
    · rw [gone]
      exact Nat.zero_le _

theorem tau_books (inv : Invariant s nest) (taken : step s .tau = some s') :
    s'.next = s.next ∧ (∀ t, s'.live t = true → s.live t = true) ∧
      ∀ t, (s'.tasks t).uid = (s.tasks t).uid ∨ (s'.tasks t).uid = none := by
  have change := step_changes inv (by simp) taken
  cases change with
  | same _ _ kept =>
      exact ⟨kept.next, fun t live => by rwa [kept.live] at live, fun t => Or.inl (kept.uid t)⟩
  | left _ _ k context frame outer _ _ ended =>
      refine ⟨ended.next, fun t live => by rwa [ended.live] at live, fun t => ?_⟩
      have uid := ended.uid t
      split at uid
      · exact Or.inr uid
      · exact Or.inl uid
  | finished _ _ k context _ _ ended =>
      refine ⟨ended.next, fun t live => ?_, fun t => Or.inl (ended.uid t)⟩
      rcases ended.object with ⟨same, -⟩ | ⟨gone, -⟩
      · rwa [same] at live
      · rw [gone] at live
        by_cases here : t = context.base
        · rw [here, Function.update_self] at live
          cases live
        · rwa [Function.update_of_ne here] at live
  | destroyed _ t way => rcases way with way | way <;> cases way

theorem unrolls_lightens (inv : Invariant s ((l, .cancelling) :: rest)) (taken : step s .tau = some s')
    (unrolls : Unrolls s l context s') : Lightens s s' l context := by
  obtain ⟨next, live, uid⟩ := tau_books inv taken
  have kind := (step_leaves taken).kind
  cases unrolls with
  | stays point contexts _ lighter _ =>
      refine ⟨next, live, uid, kind, fun q apart => ?_, fun after there => ?_, by omega⟩
      · rw [contexts, Function.update_of_ne apart]
      · rw [contexts, Function.update_self] at there
        cases there
        exact ⟨rfl, inner_mem context, lighter⟩
  | pops frame outer awaits contexts _ lighter =>
      refine ⟨next, live, uid, kind, fun q apart => ?_, fun after there => ?_, by omega⟩
      · rw [contexts, Function.update_of_ne apart]
      · rw [contexts, Function.update_self] at there
        cases there
        refine ⟨rfl, ?_, lighter⟩
        rw [(popped_chain .throwing awaits).2]
        exact List.mem_cons_of_mem _ (inner_mem _)
  | ends q _ _ contexts _ weighs =>
      refine ⟨next, live, uid, kind, fun q apart => ?_, fun after there => ?_, weighs⟩
      · rw [contexts, Function.update_of_ne apart]
      · rw [contexts, Function.update_self] at there
        cases there

theorem destroy_lightens (inv : Invariant s nest) {t : Nat}
    (taken : objectStep s (.destroy t) = some s') :
    s' = { s with live := Function.update s.live t false } ∧ loads s' < loads s := by
  simp only [objectStep] at taken
  split at taken
  · rename_i alive
    cases taken
    refine ⟨rfl, loads_less rfl (fun other _ => ?_) (inv.bounded t alive) ?_⟩
    · refine Nat.add_le_add ?_ (Nat.le_refl (burden s other))
      by_cases here : other = t
      · simp [here]
      · simp [Function.update_of_ne here]
    · refine Nat.add_lt_add_of_lt_of_le ?_ (Nat.le_refl (burden s t))
      simp [alive]
  · cases taken

end Measure

end Cocoflow.SchedulerUnwinding
