import Mathlib.Data.List.Basic
import Mathlib.Logic.Function.Basic
import Mathlib.Algebra.Order.BigOperators.Group.Finset
import Cocoflow.SchedulerUnwinding
import Cocoflow.SchedulerWrites

/-!
The library never gets stuck and never runs on without end. At every point of the library the
next statement can be executed: no check fails, no destroyed object is touched, and every
switch starts on the running coroutine and leads to one that exists. What it may do is an edge
of the control flow graph below, along which the remaining effort falls. Control is therefore
back in a user body, in a primitive or in the event loop after finitely many steps.
-/

namespace Cocoflow.SchedulerProgress

open LabelledRuns Scheduler SchedulerNest SchedulerLocal SchedulerSteps SchedulerCancel
open SchedulerCalls SchedulerObjects SchedulerSwitch SchedulerFinish SchedulerRuns SchedulerFrame SchedulerContracts
open SchedulerIds SchedulerUnwinding SchedulerWrites

/-- The control flow of the library within one task, which has `n` children if it is a
combinator. An `any_of` waits only while it is undecided. -/
inductive Edge (n : Nat) (undecided : Prop) : Point → Point → Prop where
  | body : Edge n undecided .enter .user
  | adopts : Edge n undecided .enter (.starting 0 n)
  | refuses : Edge n undecided .enter .returning
  | returned (target : Nat) : Edge n undecided (.inStart target) .user
  | allStarted (i count : Nat) (all : n ≤ i) :
      Edge n undecided (.starting i count) (.waiting count)
  | onward (i count left : Nat) (inside : i < n) (fewer : left ≤ count) :
      Edge n undecided (.started i count) (.starting (i + 1) left)
  | allDone (count : Nat) : Edge n undecided (.waiting count) .goal
  | waits (count : Nat) (open_ : undecided) :
      Edge n undecided (.waiting count) (.yielded (.wait count))
  | picked (count : Nat) : Edge n undecided (.waiting count) (.cancelLoop 0 0 .anyRun)
  | happened : Edge n undecided (.yielded .event) .returning
  | counted (count : Nat) (positive : 0 < count) :
      Edge n undecided (.yielded (.wait count)) (.waiting (count - 1))
  | woken (count : Nat) (caller : CancelCaller) :
      Edge n undecided (.yielded (.wait count)) (.cancelLoop 0 0 caller)
  | interrupted (at_ : YieldAt) (plain : ∀ unsupport caller, at_ ≠ .cancelWait unsupport caller) :
      Edge n undecided (.yielded at_) .throwing
  | reported (unsupport : Nat) (caller : CancelCaller) (positive : 0 < unsupport) :
      Edge n undecided (.yielded (.cancelWait unsupport caller)) (.cancelWait (unsupport - 1) caller)
  | handles (caller : CancelCaller) : Edge n undecided .throwing (.cancelLoop 0 0 caller)
  | round (i unsupport more : Nat) (caller : CancelCaller) (inside : i < n)
      (bound : more ≤ unsupport + 1) :
      Edge n undecided (.cancelLoop i unsupport caller) (.cancelLoop (i + 1) more caller)
  | signals (i unsupport : Nat) (caller : CancelCaller) (inside : i < n) :
      Edge n undecided (.cancelLoop i unsupport caller) (.canceling i unsupport caller)
  | unwound (i unsupport : Nat) (caller : CancelCaller) (inside : i < n) :
      Edge n undecided (.canceling i unsupport caller) (.cancelLoop (i + 1) unsupport caller)
  | protects (i unsupport : Nat) (caller : CancelCaller) (positive : unsupport ≠ 0) :
      Edge n undecided (.cancelLoop i unsupport caller) (.cancelWait unsupport caller)
  | settles (i : Nat) (caller : CancelCaller) (point : Point)
      (ends : point = .goal ∨ point = .returning) : Edge n undecided (.cancelLoop i 0 caller) point
  | lingers (unsupport : Nat) (caller : CancelCaller) (positive : unsupport ≠ 0) :
      Edge n undecided (.cancelWait unsupport caller) (.yielded (.cancelWait unsupport caller))
  | clears (caller : CancelCaller) : Edge n undecided (.cancelWait 0 caller) .goal
  | ends : Edge n undecided .goal .returning

/-- A bound for the steps of the library that a task still takes from a point on. -/
def effort (n : Nat) : Point → Nat
  | .user => 0
  | .inStart _ | .returning => 1
  | .goal => 2
  | .cancelWait unsupport _ => 2 * unsupport + 4
  | .yielded (.cancelWait unsupport _) => 2 * unsupport + 3
  | .cancelLoop i unsupport _ => 4 * (n - i) + 2 * unsupport + 6
  | .canceling i unsupport _ => 4 * (n - i) + 2 * unsupport + 5
  | .throwing => 4 * n + 7
  | .yielded .event => 4 * n + 8
  | .yielded (.wait count) => 4 * n + 2 * count + 8
  | .waiting count => 4 * n + 2 * count + 9
  | .started i count => 4 * n + 2 * count + 2 * (n - i) + 9
  | .starting i count => 4 * n + 2 * count + 2 * (n - i) + 10
  | .enter => 8 * n + 11

theorem edge_lighter {n : Nat} {undecided : Prop} {point next : Point}
    (edge : Edge n undecided point next) :
    effort n next < effort n point := by
  cases edge with
  | interrupted at_ plain =>
      cases at_ with
      | cancelWait unsupport caller => exact absurd rfl (plain unsupport caller)
      | event => simp [effort]
      | wait count =>
          simp only [effort]
          omega
  | settles i caller point ends => rcases ends with rfl | rfl <;> simp only [effort] <;> omega
  | _ =>
      simp only [effort]
      omega

def width (s : State) (context : Context) : Nat :=
  (childrenOf (s.tasks context.inner).kind).length

def decided (s : State) (context : Context) : Bool :=
  match (s.tasks context.inner).kind with
  | .group .anyOf _ => (s.tasks context.inner).completedId.isSome
  | _ => false

/-- What the running coroutine does in a step of the library. -/
inductive Advances (s : State) (k : Nat) (context : Context) (s' : State) : Prop where
  | moves (point : Point) (edge : Edge (width s context) (decided s context = false) context.point point)
      (contexts : s'.contexts =
        Function.update s.contexts k (some { context with point := point }))
  | starts (i count child j : Nat) (point : context.point = .starting i count)
      (here : (childrenOf (s.tasks context.inner).kind)[i]? = some child)
      (live : s.live child = true) (ready : (s.tasks child).status = .ready)
      (uid : (s.tasks child).uid = some j) (free : s.contexts j = none)
      (contexts : s'.contexts = Function.update
        (Function.update s.contexts k (some { context with point := .started i count })) j
        (some { base := child, awaits := [], point := .enter, stamp := s.clock }))
      (begun : (s'.tasks child).status = .running)
  | picks (i count : Nat) (inside : i < width s context) (point : context.point = .started i count)
      (contexts : s'.contexts =
        Function.update s.contexts k (some { context with point := .waiting count }))
      (chosen : decided s' context = true)
  | leaves (frame : Frame) (outer : List Frame) (awaits : context.awaits = frame :: outer)
      (place : context.point = .returning ∨ context.point = .throwing ∨
        ∃ i, context.point = .cancelLoop i 0 .await)
      (point : Point) (onward : point = .user ∨ point = .throwing)
      (contexts : s'.contexts = Function.update s.contexts k
        (some { context with awaits := outer, point := point }))
  | ends (alone : context.awaits = [])
      (place : context.point = .returning ∨ context.point = .throwing ∨
        ∃ i, context.point = .cancelLoop i 0 .runtime)
      (contexts : s'.contexts = Function.update s.contexts k none)

def Advancing (s : State) (k : Nat) (context : Context) (next : Option State) : Prop :=
  ∃ s', next = some s' ∧ Advances s k context s'

section Advance

variable {s : State} {k : Nat} {mode : Mode} {rest : Nest} {context : Context}

theorem advances_moves {moved : State} {point : Point}
    (edge : Edge (width s context) (decided s context = false) context.point point)
    (contexts : moved.contexts =
      Function.update s.contexts k (some { context with point := point })) :
    Advancing s k context (some moved) :=
  ⟨moved, rfl, .moves point edge contexts⟩

theorem next_used (inv : Invariant s ((k, mode) :: rest)) (found : s.contexts k = some context)
    (alone : context.awaits = []) {q : Nat} (going : nextAfter (s.tasks context.base) = some q) :
    q ≠ k ∧ ∃ lower, s.contexts q = some lower := by
  by_cases bottom : mode = .live none
  · subst bottom
    have sound := inv.sound k context found
    rw [modeOf_head] at sound
    have token : (s.tasks context.base).blockTo = none := by
      have inner := sound.token
      unfold Context.inner at inner
      rw [alone] at inner
      exact inner
    have finish : (s.tasks context.base).finishTo = some q := by
      simpa [nextAfter, token] using going
    obtain ⟨parent, -, -, there, -⟩ := sound.adopted q finish
    exact ⟨parent_apart inv found finish, parent, there⟩
  · obtain ⟨-, next⟩ := ends_on_stack inv found alone bottom
    rw [next] at going
    obtain ⟨apart, lower, there, -⟩ := below_found inv found going
    exact ⟨apart, lower, there⟩

theorem advances_finish (inv : Invariant s ((k, mode) :: rest)) (found : s.contexts k = some context)
    (alone : context.awaits = [])
    (place : context.point = .returning ∨ context.point = .throwing ∨
      ∃ i, context.point = .cancelLoop i 0 .runtime) {settled : State}
    (contexts : settled.contexts = s.contexts) (exec : settled.exec = s.exec)
    (links : nextAfter (settled.tasks context.base) = nextAfter (s.tasks context.base)) :
    Advancing s k context (runtimeFinish settled k context) := by
  have source : some k = settled.exec := exec.symm ▸ inv.exec.symm
  have used (q : Nat) (going : nextAfter (settled.tasks context.base) = some q) :
      ∃ lower, Function.update settled.contexts k none q = some lower := by
    rw [links] at going
    obtain ⟨apart, lower, there⟩ := next_used inv found alone going
    exact ⟨lower, by rw [Function.update_of_ne apart, contexts]; exact there⟩
  unfold runtimeFinish
  dsimp only
  change Advancing s k context (if _ then
    swapRunning _ _ (nextAfter (settled.tasks context.base)) else
    swapRunning _ _ (nextAfter (settled.tasks context.base)))
  split
  · rw [swapRunning_back (by exact source) (by exact used)]
    exact ⟨_, rfl, .ends alone place (by rw [← contexts])⟩
  · rw [swapRunning_back (by exact source) (by exact used)]
    exact ⟨_, rfl, .ends alone place (by rw [← contexts])⟩

theorem advances_yielded (inv : Invariant s ((k, mode) :: rest))
    (found : s.contexts k = some context) {at_ : YieldAt} (point : context.point = .yielded at_) :
    Advancing s k context (yieldReturn s k context at_) := by
  have placed := placed_of inv found
  by_cases raised : s.signal = true
  · obtain ⟨rfl, -⟩ := signalled inv found raised
    have plain : ∀ unsupport caller, at_ ≠ .cancelWait unsupport caller := by
      rintro unsupport caller rfl
      simp only [Placed, point] at placed
      exact absurd rfl placed.2.1
    by_cases selected : (s.tasks context.inner).status = .canceled
    · cases at_ with
      | event =>
          simp only [Placed, point] at placed
          simp only [yieldReturn, raised, selected, cancelTask, placed, cancelReturn, if_true,
            ne_eq, not_true_eq_false, if_false]
          exact advances_moves (point ▸ .happened) rfl
      | wait count =>
          simp only [Placed, point] at placed
          obtain ⟨which, children, kind, -⟩ := placed
          simp only [yieldReturn, raised, selected, cancelTask, kind, if_true, ne_eq,
            not_true_eq_false, if_false]
          exact advances_moves (point ▸ .woken count .yield) rfl
      | cancelWait unsupport caller => exact absurd rfl (plain unsupport caller)
    · have thrown : yieldReturn s k context at_ =
          some (({ s with signal := false }.setStatus context.inner .canceled).moveTo k context
            .throwing) := by
        cases at_ with
        | cancelWait unsupport caller => exact absurd rfl (plain unsupport caller)
        | _ => simp [yieldReturn, raised, selected]
      rw [thrown]
      exact advances_moves (point ▸ .interrupted at_ plain) rfl
  · have quiet : s.signal = false := by simpa using raised
    obtain ⟨token, rfl⟩ := unsignalled inv found point quiet
    cases at_ with
    | event =>
        simp only [yieldReturn, quiet]
        exact advances_moves (point ▸ .happened) rfl
    | wait count =>
        simp only [Placed, point] at placed
        obtain ⟨which, children, kind, -, woken⟩ := placed
        simp only [yieldReturn, quiet, kind]
        cases which with
        | allOf =>
            -- the child that reports was still counted
            have positive : 0 < count := by
              have counted := woken.1
              omega
            exact advances_moves (point ▸ .counted count positive) rfl
        | anyOf => exact advances_moves (point ▸ .woken count .anyRun) rfl
    | cancelWait unsupport caller =>
        simp only [Placed, point] at placed
        obtain ⟨-, -, -, children, -, -, -, counted⟩ := placed
        simp only [yieldReturn, quiet]
        exact advances_moves (point ▸ .reported unsupport caller (by omega)) rfl

theorem advances_returning (inv : Invariant s ((k, mode) :: rest))
    (found : s.contexts k = some context) (point : context.point = .returning) :
    Advancing s k context (runReturn s k context) := by
  cases awaits : context.awaits with
  | nil =>
      simp only [runReturn, awaits]
      split
      · refine advances_finish inv found awaits (.inl point) rfl rfl ?_
        simp [nextAfter, State.complete, State.setStatus]
      · exact advances_finish inv found awaits (.inl point) rfl rfl rfl
  | cons frame outer =>
      simp only [runReturn, awaits]
      let next := if (s.tasks frame.target).status = .canceled then Point.throwing else .user
      refine ⟨_, rfl, .leaves frame outer awaits (.inl point) next ?_ ?_⟩
      · by_cases canceled : (s.tasks frame.target).status = .canceled
        · exact .inr (if_pos canceled)
        · exact .inl (if_neg canceled)
      · simp only [awaitReturn, State.setContext]
        split <;> rfl

theorem advances_cancelReturn (inv : Invariant s ((k, mode) :: rest))
    (found : s.contexts k = some context) {i : Nat} {caller : CancelCaller} {which : Combinator}
    {children : List Nat} (point : context.point = .cancelLoop i 0 caller)
    (kind : (s.tasks context.inner).kind = .group which children) (ended : children[i]? = none) :
    Advancing s k context (cancelReturn s k context caller) := by
  obtain ⟨-, -, calls⟩ := cancelLoop_ended inv found point kind ended
  cases caller with
  | anyRun => exact advances_moves (point ▸ .settles i .anyRun .goal (.inl rfl)) rfl
  | yield => exact advances_moves (point ▸ .settles i .yield .returning (.inr rfl)) rfl
  | await =>
      cases awaits : context.awaits with
      | nil => exact absurd awaits calls.2.1
      | cons frame outer =>
          simp only [cancelReturn, awaits]
          exact ⟨_, rfl, .leaves frame outer awaits (.inr (.inr ⟨i, point⟩)) .throwing (.inr rfl)
            rfl⟩
  | runtime =>
      exact advances_finish inv found calls.2 (.inr (.inr ⟨i, point⟩)) rfl rfl rfl
  | cancelWait => exact calls.elim

theorem advances_throwing (inv : Invariant s ((k, mode) :: rest))
    (found : s.contexts k = some context) (point : context.point = .throwing) :
    Advancing s k context (runThrow s k context) := by
  have handled (armed : Nat → Bool) : Advancing s k context
      (cancelReturn (canceledIn s context armed) k context
        (if context.awaits = [] then .runtime else .await)) := by
    cases awaits : context.awaits with
    | nil =>
        have inner : context.inner = context.base := by
          unfold Context.inner
          rw [awaits]
        refine advances_finish inv found awaits (.inr (.inl point)) rfl rfl ?_
        rw [← inner, canceledIn_inner]
        rfl
    | cons frame outer =>
        rw [if_neg (by simp)]
        simp only [cancelReturn, awaits]
        exact ⟨_, rfl, .leaves frame outer awaits (.inr (.inl point)) .throwing (.inr rfl) rfl⟩
  have same : ((s.setStatus context.inner .canceled).tasks context.inner).kind =
      (s.tasks context.inner).kind := by
    rw [State.setStatus, setTask_self]
  unfold runThrow cancelTask
  rw [same]
  cases kind : (s.tasks context.inner).kind with
  | user => exact handled s.armed
  | event => exact handled (Function.update s.armed context.inner false)
  | group which children => exact advances_moves (point ▸ .handles _) rfl

theorem advances_round (inv : Invariant s ((k, mode) :: rest))
    (found : s.contexts k = some context) {i unsupport : Nat} {caller : CancelCaller}
    {which : Combinator} {children : List Nat}
    (point : context.point = .cancelLoop i unsupport caller)
    (kind : (s.tasks context.inner).kind = .group which children) :
    Advancing s k context (cancelRound s k context children i unsupport caller) := by
  have wide : width s context = children.length := by rw [width, kind, childrenOf]
  unfold cancelRound
  cases here : children[i]? with
  | none =>
      dsimp only
      split
      · rename_i zero
        subst zero
        exact advances_cancelReturn inv found point kind here
      · rename_i positive
        exact advances_moves (point ▸ .protects i unsupport caller positive) rfl
  | some child =>
      have inside : cancels context.point = true := by rw [point]; rfl
      have member : child ∈ children := List.mem_of_getElem? here
      have family := placed_family (placed_of inv found) kind (cancels_opened inside)
      have bound : i < width s context := wide ▸ (List.getElem?_eq_some_iff.mp here).1
      have round (more : Nat) (few : more ≤ unsupport + 1) :
          Edge (width s context) (decided s context = false) context.point (.cancelLoop (i + 1) more caller) :=
        point ▸ .round i unsupport more caller bound few
      simp only [family.live child member]
      by_cases runs : (s.tasks child).status = .running
      · obtain ⟨q, other, there, base, uid, -, apart, -⟩ :=
          running_child inv found kind inside member runs
        subst base
        have owner := ((inv.sound k context found).owned _ (inner_mem context)).2
        simp only [runs, if_true]
        rcases protector_chain inv there with ⟨final, -, -, walk, -⟩ | ⟨walk, -⟩
        · rw [walk]
          refine advances_moves (round (unsupport + 1) (Nat.le_refl _)) ?_
          split <;> rfl
        · rw [walk, owner, uid, swapRunning_back]
          · exact advances_moves (point ▸ .signals i unsupport caller bound) rfl
          · exact inv.exec.symm
          · intro q' going
            cases going
            exact ⟨other, (Function.update_of_ne apart _ _).trans there⟩
      · simp only [runs, if_false]
        exact advances_moves (round unsupport (Nat.le_succ _)) rfl

theorem advances_group (inv : Invariant s ((k, mode) :: rest))
    (found : s.contexts k = some context) {which : Combinator} {children : List Nat}
    (kind : (s.tasks context.inner).kind = .group which children)
    (inside : opened context.point = true ∨ context.point = .goal)
    (suspended : ∀ at_, context.point ≠ .yielded at_) (calm : context.point ≠ .throwing) :
    Advancing s k context (groupStep s k context which children context.point) := by
  have wide : width s context = children.length := by rw [width, kind, childrenOf]
  have yields (at_ : YieldAt) (live : mode.Live) (edge : Edge (width s context) (decided s context = false) context.point
      (.yielded at_)) : Advancing s k context (taskYield s k context at_) := by
    obtain ⟨token, rfl⟩ := live
    have taken := @taskYield_yields s k token rest context at_ s.armed inv found
    rw [taken]
    exact advances_moves edge rfl
  have placed := placed_of inv found
  cases point : context.point with
  | starting i count =>
      simp only [groupStep]
      cases here : children[i]? with
      | none =>
          have all : width s context ≤ i := wide ▸ List.getElem?_eq_none_iff.mp here
          exact advances_moves (point ▸ .allStarted i count all) rfl
      | some child =>
          simp only [Placed, point, kind] at placed
          obtain ⟨-, which, others, same, family, -, untouched, -⟩ := placed
          cases same
          have bound := (List.getElem?_eq_some_iff.mp here).1
          have member : child ∈ children := List.mem_of_getElem? here
          have later : child ∈ children.drop i := by
            rw [List.drop_eq_getElem_cons bound, (List.getElem?_eq_some_iff.mp here).2]
            exact List.mem_cons_self
          have live := family.live child member
          have owner := ((inv.sound k context found).owned _ (inner_mem context)).2
          obtain ⟨j, uid, managed, free, -⟩ := step_starts_child inv found point kind here
          have apart : j ≠ k := by
            rintro rfl
            rw [found] at free
            cases free
          have switch : swapRunning (s.moveTo k context (.started i count)) (some k) (some j) =
              some (spawns (s.moveTo k context (.started i count)) child j) :=
            swapRunning_spawns inv.exec.symm ((Function.update_of_ne apart _ _).trans free) managed
              live
          simp only [live, if_true]
          rw [owner, uid, switch]
          refine ⟨_, rfl, .starts i count child j point ?_ live (untouched child later).1 uid free
            rfl ?_⟩
          · rw [kind]
            exact here
          · change (Function.update s.tasks child _ child : Task).status = .running
            rw [Function.update_self]
  | started i count =>
      simp only [Placed, point, kind] at placed
      obtain ⟨-, which, others, same, family, bound, -⟩ := placed
      cases same
      have inside : i < width s context := wide ▸ bound
      have here : children[i]? = some children[i] := List.getElem?_eq_getElem bound
      have live := family.live _ (List.getElem_mem bound)
      simp only [groupStep, here, live]
      by_cases completed : (s.tasks children[i]).status = .completed
      · simp only [completed, if_true]
        cases which with
        | allOf => exact advances_moves (point ▸ .onward i count _ inside (Nat.sub_le _ _)) rfl
        | anyOf =>
            refine ⟨_, rfl, .picks i count inside point rfl ?_⟩
            simp [decided, State.moveTo, State.setContext, setTask_self, kind]
      · simp only [completed, if_false]
        exact advances_moves (point ▸ .onward i count _ inside (Nat.le_refl _)) rfl
  | waiting count =>
      simp only [Placed, point] at placed
      simp only [groupStep]
      cases which with
      | allOf =>
          dsimp only
          split
          · exact advances_moves (point ▸ .allDone count) rfl
          · refine yields _ placed.1 (point ▸ .waits count ?_)
            simp [decided, kind]
      | anyOf =>
          dsimp only
          split
          · rename_i unchosen
            refine yields _ placed.1 (point ▸ .waits count ?_)
            simp [decided, kind, unchosen]
          · exact advances_moves (point ▸ .picked count) rfl
  | cancelLoop i unsupport caller => exact advances_round inv found point kind
  | canceling i unsupport caller =>
      simp only [Placed, point, kind] at placed
      obtain ⟨which, others, child, same, -, here, -⟩ := placed
      cases same
      have bound := (List.getElem?_eq_some_iff.mp here).1
      exact advances_moves (point ▸ .unwound i unsupport caller (wide ▸ bound)) rfl
  | cancelWait unsupport caller =>
      simp only [Placed, point] at placed
      obtain ⟨rfl, live, -⟩ := placed
      simp only [groupStep]
      split
      · rename_i zero
        subst zero
        exact advances_moves (point ▸ .clears .anyRun) rfl
      · rename_i positive
        exact yields _ live (point ▸ .lingers unsupport .anyRun positive)
  | goal => exact advances_moves (point ▸ .ends) rfl
  | yielded at_ => exact absurd point (suspended at_)
  | throwing => exact absurd point calm
  | _ => simp [point, opened] at inside

theorem adoptChildren_enabled {uid : Option Nat} {children : List Nat}
    (live : ∀ t ∈ children, s.live t = true) : adoptChildren s uid children ≠ none := by
  induction children generalizing s with
  | nil => simp [adoptChildren]
  | cons child others ih =>
      unfold adoptChildren
      simp only [live child List.mem_cons_self]
      split
      · contradiction
      · split
        · simp
        · exact ih fun t member => live t (List.mem_cons_of_mem _ member)

theorem group_kind (placed : Placed s k context mode)
    (inside : opened context.point = true ∨ context.point = .goal)
    (calm : context.point ≠ .throwing) :
    ∃ which children, (s.tasks context.inner).kind = .group which children := by
  cases point : context.point with
  | starting | started | waiting | goal =>
      simp only [Placed, point] at placed
      obtain ⟨-, which, children, kind, -⟩ := placed
      exact ⟨which, children, kind⟩
  | cancelLoop =>
      simp only [Placed, point] at placed
      obtain ⟨which, children, kind, -⟩ := placed
      exact ⟨which, children, kind⟩
  | canceling =>
      simp only [Placed, point] at placed
      obtain ⟨which, children, -, kind, -⟩ := placed
      exact ⟨which, children, kind⟩
  | cancelWait =>
      simp only [Placed, point] at placed
      obtain ⟨-, -, -, children, kind, -⟩ := placed
      exact ⟨.anyOf, children, kind⟩
  | yielded at_ =>
      cases at_ with
      | event => simp [point, opened] at inside
      | wait count =>
          simp only [Placed, point] at placed
          obtain ⟨which, children, kind, -⟩ := placed
          exact ⟨which, children, kind⟩
      | cancelWait unsupport caller =>
          simp only [Placed, point] at placed
          obtain ⟨-, -, -, children, kind, -⟩ := placed
          exact ⟨.anyOf, children, kind⟩
  | throwing => exact absurd point calm
  | _ => simp [point, opened] at inside

def Library (s : State) (context : Context) : Prop :=
  context.point ≠ .user ∧
    (context.point = .enter → (s.tasks context.inner).kind ≠ .event)

def Adopts (s : State) (context : Context) : Prop :=
  context.point = .enter → ∀ which children, (s.tasks context.inner).kind = .group which children →
    adoptChildren s (s.tasks context.inner).uid children ≠ none

/-- A combinator that begins has children that are not destroyed yet. -/
def ChildrenAlive (s : State) (context : Context) : Prop :=
  context.point = .enter → ∀ t ∈ childrenOf (s.tasks context.inner).kind, s.live t = true

theorem adopts_alive (alive : ChildrenAlive s context) : Adopts s context := by
  intro point which children kind
  refine adoptChildren_enabled fun t member => alive point t ?_
  rw [kind]
  exact member

/-- The step lemma of this module. -/
theorem tau_advances (inv : Invariant s ((k, mode) :: rest)) (found : s.contexts k = some context)
    (library : Library s context) (adopts : Adopts s context) :
    Advancing s k context (step s .tau) := by
  have exec : s.exec = some k := inv.exec
  have placed := placed_of inv found
  have taken : step s .tau = coroutineStep s k context := by
    simp only [step, exec, found, contextStep]
  obtain ⟨notUser, notEvent⟩ := library
  rw [taken]
  unfold coroutineStep
  cases point : context.point with
  | user => exact absurd point notUser
  | enter =>
      cases kind : (s.tasks context.inner).kind with
      | user => exact advances_moves (point ▸ .body) rfl
      | event => exact absurd kind (notEvent point)
      | group which children =>
          have wide : width s context = children.length := by rw [width, kind, childrenOf]
          dsimp only
          unfold runGroup
          cases result : adoptChildren s (s.tasks context.inner).uid children with
          | none => exact absurd result (adopts point which children kind)
          | some adopted =>
              obtain ⟨state, all⟩ := adopted
              obtain ⟨first, -, -, rfl, -, -⟩ := adoptChildren_spec result
              cases all with
              | true =>
                  have edge : Edge (width s context) (decided s context = false) context.point
                      (.starting 0 children.length) := by
                    rw [point, ← wide]
                    exact .adopts
                  exact advances_moves edge rfl
              | false => exact advances_moves (point ▸ .refuses) rfl
  | inStart target => exact advances_moves (point ▸ .returned target) rfl
  | yielded at_ => exact advances_yielded inv found point
  | returning => exact advances_returning inv found point
  | throwing => exact advances_throwing inv found point
  | _ =>
      -- the points inside `run` of a combinator
      obtain ⟨which, children, kind⟩ := group_kind placed (by simp [point, opened])
        (by simp [point])
      have inside := advances_group inv found kind (by simp [point, opened]) (by simp [point])
        (by simp [point])
      rw [point] at inside
      simp only [kind]
      exact inside

end Advance

section Inverse

variable {s s' : State} {k : Nat} {mode : Mode} {rest : Nest} {context : Context}

theorem tau_inverse (inv : Invariant s ((k, mode) :: rest)) (found : s.contexts k = some context)
    (taken : step s .tau = some s') : Advances s k context s' := by
  have exec : s.exec = some k := inv.exec
  have placed := placed_of inv found
  have same : step s .tau = coroutineStep s k context := by
    simp only [step, exec, found, contextStep]
  have library : Library s context := by
    constructor
    · intro point
      simp only [Placed, point] at placed
      simp [same, coroutineStep, point, placed.2] at taken
    · intro point event
      simp [same, coroutineStep, point, event] at taken
  have adopts : Adopts s context := by
    intro point which children kind refused
    simp [same, coroutineStep, point, kind, runGroup, refused] at taken
  obtain ⟨next, moved, advances⟩ := tau_advances inv found library adopts
  rw [taken] at moved
  cases moved
  exact advances

end Inverse

/-- The statements that are due: the next one of the library, or one of the program whose
objects are alive. -/
def Due (s : State) : Label → Prop
  | .tau => ∃ context ∈ running s, Library s context ∧ ChildrenAlive s context
  | .block | .skip => ∃ context ∈ running s,
      context.point = .enter ∧ (s.tasks context.inner).kind = .event
  | .ret => ∃ context ∈ running s, context.point = .user
  | .await t | .start t => (∃ context ∈ running s, context.point = .user) ∧ s.live t = true
  | .event t => s.exec = none ∧ s.armed t = true
  | .cocoflow t => s.exec = none ∧ s.top = none ∧ s.live t = true
  | _ => False

section Enabled

variable {s : State} {nest : Nest} {label : Label} {labels : List Label} {context : Context}

theorem running_head (inv : Invariant s nest) (shown : context ∈ running s) :
    ∃ k mode rest, nest = (k, mode) :: rest ∧ s.contexts k = some context := by
  cases nest with
  | nil =>
      rw [running, inv.exec] at shown
      cases shown
  | cons entry rest =>
      obtain ⟨k, mode⟩ := entry
      refine ⟨k, mode, rest, rfl, ?_⟩
      rw [running, inv.exec] at shown
      exact shown

theorem context_step {k : Nat} {mode : Mode} {rest : Nest} (inv : Invariant s ((k, mode) :: rest))
    (found : s.contexts k = some context) : step s label = contextStep s k context label := by
  have exec : s.exec = some k := inv.exec
  simp only [step, exec, found]

theorem user_enabled {k t : Nat} {mode : Mode} {rest : Nest}
    (inv : Invariant s ((k, mode) :: rest)) (found : s.contexts k = some context)
    (live : s.live t = true) : await s k context t ≠ none ∧
      ((¬Engaged s t ∧ ¬Claimed s t) → context.point = .user → start s k context t ≠ none) := by
  obtain ⟨parent, member, current⟩ := inv.current k context inv.exec found
  have owner := ((inv.sound k context found).owned parent member).2
  constructor
  · unfold await
    simp only [live, current]
    split
    · contradiction
    · split <;> simp
  · rintro ⟨-, free⟩ user
    by_cases ready : (s.tasks t).status = .ready
    · obtain ⟨j, uid, managed, empty, -⟩ := step_starts inv found user live ready
        (unclaimed_of inv free)
      have apart : j ≠ k := by
        rintro rfl
        rw [found] at empty
        cases empty
      have accepted : start s k context t = swapRunning ((s.setTask t fun task =>
          { task with blockTo := some k, finishTo := none }).moveTo k context
            (.inStart t)) (some k) (some j) := by
        simp [start, live, current, ready, owner, uid]
      rw [accepted, swapRunning_spawns (by exact inv.exec.symm)
        (by exact (Function.update_of_ne apart _ _).trans empty) (by exact managed)
        (by exact live)]
      simp
    · simp [start, live, current, ready]

theorem loop_nest (inv : Invariant s nest) (loop : s.exec = none) : nest = [] := by
  have exec := inv.exec
  rw [loop] at exec
  simpa using exec.symm

theorem loop_enabled {t : Nat} (inv : Invariant s []) :
    (s.armed t = true → loopStep s (.event t) ≠ none) ∧
      (s.top = none → s.live t = true → Disciplined s (.cocoflow t) →
        loopStep s (.cocoflow t) ≠ none) := by
  constructor
  · intro pending
    obtain ⟨-, p, context, there, rfl, -⟩ := inv.armed t pending
    obtain ⟨live, uid⟩ := (inv.sound p context there).owned _ (inner_mem context)
    simp only [loopStep, pending, live, uid]
    rw [swapRunning_back (by exact inv.exec.symm) fun q same => by
      cases same
      exact ⟨context, there⟩]
    simp
  · rintro none live ⟨ready, free⟩
    have elsewhere (l : Nat) (other : Context) (there : s.contexts l = some other) :
        other.point ≠ .goal := by
      obtain ⟨at_, point⟩ := placed_parked (inv.sound l other there).placed
      simp [point]
    obtain ⟨j, uid, managed, empty, -⟩ :=
      step_cocoflow inv live ready (unclaimed_of inv free) elsewhere
    simp only [loopStep, none, live, uid]
    rw [swapRunning_spawns (by exact inv.exec.symm) (by exact empty) (by exact managed)
      (by exact live)]
    simp

/-- In every regular run no statement that is due fails. -/
theorem due_enabled (along : Along step Regular {} labels)
    (run : replay step {} labels = some s) (regular : Regular s label) (due : Due s label) :
    ∃ s', step s label = some s' := by
  obtain ⟨nest, inv⟩ := nested_along along run
  apply Option.ne_none_iff_exists'.mp
  cases label with
  | tau =>
      obtain ⟨context, shown, library, alive⟩ := due
      obtain ⟨k, mode, rest, rfl, found⟩ := running_head inv shown
      obtain ⟨s', taken, -⟩ := tau_advances inv found library (adopts_alive alive)
      simp [taken]
  | block =>
      obtain ⟨context, shown, point, kind⟩ := due
      obtain ⟨k, mode, rest, rfl, found⟩ := running_head inv shown
      have placed := placed_of inv found
      simp only [Placed, point] at placed
      obtain ⟨token, rfl⟩ := placed.1
      rw [context_step inv found]
      simp only [contextStep, point, kind]
      rw [taskYield_yields inv found]
      simp
  | skip =>
      obtain ⟨context, shown, point, kind⟩ := due
      obtain ⟨k, mode, rest, rfl, found⟩ := running_head inv shown
      rw [context_step inv found]
      simp [contextStep, point, kind]
  | ret =>
      obtain ⟨context, shown, point⟩ := due
      obtain ⟨k, mode, rest, rfl, found⟩ := running_head inv shown
      have placed := placed_of inv found
      simp only [Placed, point] at placed
      rw [context_step inv found]
      simp [contextStep, point, placed.2, userStep]
  | await t =>
      obtain ⟨⟨context, shown, point⟩, live⟩ := due
      obtain ⟨k, mode, rest, rfl, found⟩ := running_head inv shown
      have placed := placed_of inv found
      simp only [Placed, point] at placed
      rw [context_step inv found]
      simpa only [contextStep, point, placed.2, userStep] using (user_enabled inv found live).1
  | start t =>
      obtain ⟨⟨context, shown, point⟩, live⟩ := due
      obtain ⟨k, mode, rest, rfl, found⟩ := running_head inv shown
      have placed := placed_of inv found
      simp only [Placed, point] at placed
      rw [context_step inv found]
      simpa only [contextStep, point, placed.2, userStep] using
        (user_enabled inv found live).2 regular.1 point
  | event t =>
      obtain ⟨loop, pending⟩ := due
      obtain rfl := loop_nest inv loop
      simpa only [step, loop] using (loop_enabled inv).1 pending
  | cocoflow t =>
      obtain ⟨loop, none, live⟩ := due
      obtain rfl := loop_nest inv loop
      simpa only [step, loop] using (loop_enabled inv).2 none live regular.1
  | construct kind uid => exact due.elim
  | destroy t => exact due.elim
  | uninterruptable t => exact due.elim

/-- The end of the inner sleep in `all_of(sleep, all_of(sleep))`: its task goes on. -/
theorem due_enabled_inner : ∃ s s', replay step {} (innerAllOf ++ [.event 2]) = some s ∧
    step s .tau = some s' := by
  have reached : (replay step {} (innerAllOf ++ [.event 2])).isSome := by decide +kernel
  have regular : Along step Regular {} (innerAllOf ++ [.event 2]) := by decide +kernel
  have shown : (running ((replay step {} (innerAllOf ++ [.event 2])).get reached)) =
      some ⟨2, [], .yielded .event, 3⟩ := by decide +kernel +revert
  have next : Regular ((replay step {} (innerAllOf ++ [.event 2])).get reached) .tau := by
    decide +kernel +revert
  obtain ⟨s', taken⟩ := due_enabled regular (Option.some_get reached).symm next
    ⟨_, shown, ⟨by simp, by simp⟩, by simp [ChildrenAlive]⟩
  exact ⟨_, s', (Option.some_get reached).symm, taken⟩

end Enabled

def burdenOf (s : State) (context : Context) : Nat :=
  effort (width s context) context.point + 8 * context.awaits.length

/-- What is left to do for a task: to begin it, if it can be started, and to bring the coroutine
that it is the base of to its end. -/
def potential (s : State) (t : Nat) : Nat :=
  (if s.live t = true ∧ (s.tasks t).status = .ready then
    8 * (childrenOf (s.tasks t).kind).length + 12 else 0) +
  match (s.tasks t).uid.bind s.contexts with
  | some context => if context.base = t then burdenOf s context else 0
  | none => 0

/-- A bound for the steps that the library takes before it needs the program or an event. -/
def remaining (s : State) : Nat := ∑ t ∈ Finset.range s.next, potential s t

section Spending

variable {s s' : State} {k : Nat} {mode : Mode} {rest : Nest} {context : Context}

theorem width_same (leaves : Leaves s.exec (Refuses s) s s') {other : Context}
    (inside : other.inner < s.next) : width s' other = width s other := by
  unfold width
  rw [leaves.kind _ inside]

theorem burdenOf_same (leaves : Leaves s.exec (Refuses s) s s') {other : Context}
    (inside : other.inner < s.next) : burdenOf s' other = burdenOf s other := by
  unfold burdenOf
  rw [width_same leaves inside]

theorem advances_burden (inv : Invariant s ((k, mode) :: rest)) (found : s.contexts k = some context)
    (taken : step s .tau = some s') (advances : Advances s k context s') :
    0 < burdenOf s context ∧ ∀ after, s'.contexts k = some after →
      after.base = context.base ∧ burdenOf s' after < burdenOf s context := by
  have leaves := step_leaves taken
  have sound := inv.sound k context found
  have bounded (t : Nat) (member : t ∈ context.chain) : t < s.next :=
    inv.bounded t (sound.owned t member).1
  have inner := bounded _ (inner_mem context)
  cases advances with
  | moves point edge contexts =>
      have lighter := edge_lighter edge
      refine ⟨by unfold burdenOf; omega, fun after there => ?_⟩
      rw [contexts, Function.update_self] at there
      cases there
      refine ⟨rfl, ?_⟩
      have same : width s' { context with point := point } = width s context :=
        width_same leaves inner
      simp only [burdenOf, same]
      omega
  | starts i count child j point here _ _ _ free contexts _ =>
      have apart : k ≠ j := by
        rintro rfl
        rw [found] at free
        cases free
      refine ⟨by simp only [burdenOf, point, effort]; omega, fun after there => ?_⟩
      rw [contexts, Function.update_of_ne apart, Function.update_self] at there
      cases there
      refine ⟨rfl, ?_⟩
      have same : width s' { context with point := .started i count } = width s context :=
        width_same leaves inner
      simp only [burdenOf, same, point, effort]
      omega
  | picks i count inside point contexts _ =>
      refine ⟨by simp only [burdenOf, point, effort]; omega, fun after there => ?_⟩
      rw [contexts, Function.update_self] at there
      cases there
      refine ⟨rfl, ?_⟩
      have same : width s' { context with point := .waiting count } = width s context :=
        width_same leaves inner
      simp only [burdenOf, same, point, effort]
      omega
  | leaves frame outer awaits place point onward contexts =>
      refine ⟨by simp only [burdenOf, awaits, List.length_cons]; omega, fun after there => ?_⟩
      rw [contexts, Function.update_self] at there
      cases there
      refine ⟨rfl, ?_⟩
      -- the task outside is a user task
      obtain ⟨-, chain⟩ := popped_chain point awaits
      have member : ({ context with awaits := outer, point := point } : Context).inner ∈
          context.chain.tail := by
        rw [chain, List.tail_cons]
        exact inner_mem _
      have user := (sound.outer _ member).1
      have narrow : width s' { context with awaits := outer, point := point } = 0 := by
        rw [width_same leaves (bounded _ (List.mem_of_mem_tail member)), width, user]
        rfl
      simp only [burdenOf, narrow, awaits, List.length_cons]
      rcases onward with rfl | rfl <;> simp only [effort] <;> omega
  | ends alone place contexts =>
      refine ⟨?_, fun after there => ?_⟩
      · rcases place with point | point | ⟨i, point⟩ <;> simp only [burdenOf, point, effort] <;> omega
      · rw [contexts, Function.update_self] at there
        cases there

-- Every other coroutine that is in use after the step was in use before, or is that of a child
-- that has just been started.
theorem advances_other (advances : Advances s k context s') {q : Nat} {other : Context}
    (apart : q ≠ k) (there : s'.contexts q = some other) :
    s.contexts q = some other ∨ s.contexts q = none ∧ other.point = .enter ∧ other.awaits = [] ∧
      s.live other.base = true ∧ (s.tasks other.base).status = .ready ∧
      (s'.tasks other.base).status = .running := by
  cases advances with
  | moves point edge contexts =>
      rw [contexts, Function.update_of_ne apart] at there
      exact Or.inl there
  | starts i count child j point here live ready _ free contexts begun =>
      rw [contexts] at there
      by_cases new : q = j
      · subst new
        rw [Function.update_self] at there
        cases there
        exact Or.inr ⟨free, rfl, rfl, live, ready, begun⟩
      · rw [Function.update_of_ne new, Function.update_of_ne apart] at there
        exact Or.inl there
  | picks i count inside point contexts _ =>
      rw [contexts, Function.update_of_ne apart] at there
      exact Or.inl there
  | leaves frame outer awaits place point onward contexts =>
      rw [contexts, Function.update_of_ne apart] at there
      exact Or.inl there
  | ends alone place contexts =>
      rw [contexts, Function.update_of_ne apart] at there
      exact Or.inl there

/-- Every step of the library uses up some of what is left to do. -/
theorem tau_spends (inv : Invariant s ((k, mode) :: rest)) (found : s.contexts k = some context)
    (taken : step s .tau = some s') (advances : Advances s k context s') :
    remaining s' < remaining s := by
  have leaves := step_leaves taken
  obtain ⟨next, alive, uid⟩ := tau_books inv taken
  obtain ⟨weighs, lighter⟩ := advances_burden inv found taken advances
  have owner := ((inv.sound k context found).owned _ (base_mem context)).2
  have bounded := inv.bounded _ ((inv.sound k context found).owned _ (base_mem context)).1
  -- no task becomes ready
  have unready (t : Nat) (inside : t < s.next) :
      (if s'.live t = true ∧ (s'.tasks t).status = .ready then
        8 * (childrenOf (s'.tasks t).kind).length + 12 else 0) ≤
      (if s.live t = true ∧ (s.tasks t).status = .ready then
        8 * (childrenOf (s.tasks t).kind).length + 12 else 0) := by
    split
    · rename_i fresh
      have before : (s.tasks t).status = .ready := by
        rcases step_status taken inside with same | becomes
        · exact same ▸ fresh.2
        · rw [fresh.2] at becomes
          exact becomes.elim
      rw [if_pos ⟨alive t fresh.1, before⟩, leaves.kind t inside]
    · exact Nat.zero_le _
  have less : potential s' context.base < potential s context.base := by
    have still := unready _ bounded
    unfold potential
    rw [owner, Option.bind_some, found]
    simp only [if_true]
    rcases uid context.base with same | gone
    · rw [same, owner, Option.bind_some]
      cases there : s'.contexts k with
      | none =>
          dsimp only
          omega
      | some after =>
          obtain ⟨base, lighter⟩ := lighter after there
          simp only [base, if_true]
          omega
    · rw [gone, Option.bind_none]
      dsimp only
      omega
  unfold remaining
  rw [next]
  refine Finset.sum_lt_sum (fun t member => ?_) ⟨context.base, Finset.mem_range.mpr bounded, less⟩
  have inside := Finset.mem_range.mp member
  by_cases here : t = context.base
  · exact here ▸ Nat.le_of_lt less
  have still := unready t inside
  unfold potential
  rcases uid t with same | gone
  · rw [same]
    cases there : (s.tasks t).uid.bind s'.contexts with
    | none =>
        dsimp only
        omega
    | some other =>
        obtain ⟨q, own, place⟩ := Option.bind_eq_some_iff.mp there
        dsimp only
        by_cases base : other.base = t
        · have apart : q ≠ k := by
            rintro rfl
            exact here (base ▸ (lighter other place).1)
          rw [own, Option.bind_some]
          rcases advances_other advances apart place with before | ⟨free, enter, none, live, ready, begun⟩
          · have inner := inv.bounded _ ((inv.sound q other before).owned _ (inner_mem other)).1
            rw [before, if_pos base, burdenOf_same leaves inner]
            dsimp only
            rw [if_pos base]
            omega
          · -- the child that has just been started
            rw [base] at live ready begun
            rw [free]
            have inner : other.inner = t := by
              unfold Context.inner
              rw [none]
              exact base
            simp [base, burdenOf, enter, none, effort, live, ready, begun, width, inner,
              leaves.kind t inside]
        · rw [if_neg base]
          omega
  · rw [gone, Option.bind_none]
    dsimp only
    omega

end Spending

/-- Control is in the event loop, in a user body or at the first statement of a primitive. -/
def Rests (s : State) : Prop := ∀ context ∈ running s, ¬Library s context

def Promised (s : State) : Prop :=
  Regular s .tau ∧ ∀ context ∈ running s, ChildrenAlive s context

section Returning

variable {s : State} {nest : Nest} {labels : List Label}

instance (context : Context) : Decidable (Library s context) :=
  inferInstanceAs (Decidable (_ ∧ (_ → _)))

instance (context : Context) : Decidable (ChildrenAlive s context) :=
  inferInstanceAs (Decidable (_ → ∀ t ∈ childrenOf (s.tasks context.inner).kind, _))

instance : Decidable (Rests s) :=
  inferInstanceAs (Decidable (∀ context ∈ running s, ¬Library s context))

theorem returns_from (inv : Invariant s nest) :
    ∃ n ≤ remaining s, ∃ s', replay step s (List.replicate n .tau) = some s' ∧
      Along step Regular s (List.replicate n .tau) ∧ (Rests s' ∨ ¬Promised s') := by
  induction left : remaining s using Nat.strongRecOn generalizing s nest with
  | _ left ih =>
      subst left
      by_cases stays : Rests s ∨ ¬Promised s
      · exact ⟨0, Nat.zero_le _, s, rfl, trivial, stays⟩
      · obtain ⟨moving, promised⟩ := not_or.mp stays
        obtain ⟨regular, alive⟩ := not_not.mp promised
        obtain ⟨context, shown, library⟩ : ∃ context ∈ running s, Library s context := by
          simpa [Rests] using moving
        obtain ⟨k, mode, rest, rfl, found⟩ := running_head inv shown
        obtain ⟨next, taken, advances⟩ :=
          tau_advances inv found library (adopts_alive (alive context shown))
        have less := tau_spends inv found taken advances
        obtain ⟨after, kept, -⟩ := step_kept inv regular taken
        obtain ⟨n, few, s', run, along, ends⟩ := ih (remaining next) less kept rfl
        refine ⟨n + 1, by omega, s', ?_, ?_, ends⟩
        · rw [List.replicate_succ, replay, taken]
          exact run
        · rw [List.replicate_succ]
          refine ⟨regular, ?_⟩
          rw [taken]
          exact along

/-- From every state of a regular run the library brings control back after a bounded number
of its own steps, unless the program breaks its promise on the way. -/
theorem control_returns (along : Along step Regular {} labels)
    (run : replay step {} labels = some s) :
    ∃ n ≤ remaining s, ∃ s', replay step s (List.replicate n .tau) = some s' ∧
      Along step Regular s (List.replicate n .tau) ∧ (Rests s' ∨ ¬Promised s') := by
  obtain ⟨nest, inv⟩ := nested_along along run
  exact returns_from inv

/-- The end of the inner sleep ends both `all_of`, and control is back in the top task. -/
theorem control_returns_inner : ∃ s, replay step {} (innerAllOf ++ [.event 2]) = some s ∧
    ¬Rests s ∧ ∃ n ≤ remaining s, ∃ s', replay step s (List.replicate n .tau) = some s' ∧
      Along step Regular s (List.replicate n .tau) ∧ (Rests s' ∨ ¬Promised s') := by
  have reached : (replay step {} (innerAllOf ++ [.event 2])).isSome := by decide +kernel
  have regular : Along step Regular {} (innerAllOf ++ [.event 2]) := by decide +kernel
  exact ⟨_, (Option.some_get reached).symm, by decide +kernel +revert,
    control_returns regular (Option.some_get reached).symm⟩

end Returning

end Cocoflow.SchedulerProgress
