import Mathlib.Logic.Function.Basic
import Mathlib.Data.List.Basic
import Cocoflow.SchedulerLocal

/-!
The steps of the library that switch to no other coroutine, one lemma per statement of
`all_of::run`, `any_of::run`, `__task_cancel_children` and `__task_yield`.
-/

namespace Cocoflow.SchedulerSteps

open LabelledRuns Scheduler SchedulerNest SchedulerLocal

section Books

variable {s : State} {children : List Nat} {i t : Nat}

theorem countP_take_succ (test : Nat → Bool) (here : children[i]? = some t) :
    (children.take (i + 1)).countP test =
      (children.take i).countP test + if test t then 1 else 0 := by
  rw [List.take_add_one, here, List.countP_append]
  cases h : test t <;> simp [h]

theorem unfinished_succ (here : children[i]? = some t) :
    unfinished s (children.take (i + 1)) =
      unfinished s (children.take i) + if (s.tasks t).status = .completed then 0 else 1 := by
  unfold unfinished
  rw [countP_take_succ _ here]
  by_cases completed : (s.tasks t).status = .completed <;> simp [completed]

theorem active_succ (here : children[i]? = some t) :
    active s (children.take (i + 1)) =
      active s (children.take i) + if (s.tasks t).status = .running then 1 else 0 := by
  unfold active
  rw [countP_take_succ _ here]
  by_cases running : (s.tasks t).status = .running <;> simp [running]

theorem active_zero (none : active s children = 0) :
    ∀ t ∈ children, (s.tasks t).status ≠ .running := by
  unfold active at none
  rw [List.countP_eq_zero] at none
  simpa using none

theorem unfinished_zero (none : unfinished s children = 0) :
    ∀ t ∈ children, (s.tasks t).status = .completed := by
  unfold unfinished at none
  rw [List.countP_eq_zero] at none
  simpa using none

theorem uncanceled_succ (here : children[i]? = some t)
    (uncanceled : (s.tasks t).status ≠ .canceled) (earlier : Uncanceled s (children.take i)) :
    Uncanceled s (children.take (i + 1)) := by
  intro other member
  rw [List.take_add_one, here] at member
  rcases List.mem_append.mp member with before | last
  · exact earlier other before
  · cases Option.mem_toList.mp last
    exact uncanceled

theorem progress_waits {which : Combinator} {group count : Nat}
    (here : children[i]? = some t) (open_ : (s.tasks t).status ≠ .completed)
    (uncanceled : (s.tasks t).status ≠ .canceled) (progress : Progress s which group children i count) :
    Progress s which group children (i + 1) count := by
  have inside : i < children.length := (List.getElem?_eq_some_iff.mp here).1
  cases which with
  | allOf =>
      obtain ⟨counted, earlier⟩ := progress
      refine ⟨?_, uncanceled_succ here uncanceled earlier⟩
      rw [unfinished_succ here, if_neg open_]
      omega
  | anyOf =>
      obtain ⟨none, chosen⟩ := progress
      refine ⟨fun other member => ?_, chosen⟩
      rw [List.take_add_one, here] at member
      rcases List.mem_append.mp member with earlier | last
      · exact none other earlier
      · cases Option.mem_toList.mp last
        exact open_

theorem progress_completes {group count : Nat} (here : children[i]? = some t)
    (completed : (s.tasks t).status = .completed)
    (progress : Progress s .allOf group children i count) :
    Progress s .allOf group children (i + 1) (count - 1) := by
  have inside : i < children.length := (List.getElem?_eq_some_iff.mp here).1
  obtain ⟨counted, earlier⟩ := progress
  refine ⟨?_, uncanceled_succ here (by simp [completed]) earlier⟩
  rw [unfinished_succ here, if_pos completed]
  omega

theorem progress_ends {which : Combinator} {group count : Nat}
    (ended : children.length ≤ i) (progress : Progress s which group children i count) :
    Waits s which group children count := by
  unfold Progress at progress
  rw [List.take_of_length_le ended] at progress
  cases which with
  | allOf =>
      obtain ⟨counted, uncanceled⟩ := progress
      refine ⟨?_, uncanceled⟩
      omega
  | anyOf => exact progress

end Books

section Moves

variable {s : State} {k : Nat} {mode : Mode} {rest : Nest} {context : Context}

theorem placed_of (inv : Invariant s ((k, mode) :: rest)) (found : s.contexts k = some context) :
    Placed s k context mode := by
  have placed := (inv.sound k context found).placed
  rwa [modeOf_head] at placed

theorem calm_of (inv : Invariant s ((k, mode) :: rest)) (found : s.contexts k = some context)
    (awake : mode.Live ∨
      (∀ at_, context.point ≠ .yielded at_) ∧ context.point ≠ .throwing) :
    s.signal = false ∧ s.armed context.inner = false := by
  rcases awake with ⟨token, rfl⟩ | ⟨onward, regular⟩
  · exact ⟨signal_false inv found (Or.inl (by simp)), disarmed inv found (Or.inl ⟨token, rfl⟩)⟩
  · exact ⟨signal_false inv found (Or.inr onward),
      disarmed inv found (Or.inr (Or.inl ⟨onward _, regular⟩))⟩

theorem step_enter_user (inv : Invariant s ((k, mode) :: rest))
    (found : s.contexts k = some context) (point : context.point = .enter)
    (kind : (s.tasks context.inner).kind = .user) :
    Invariant (s.moveTo k context .user) ((k, mode) :: rest) := by
  have placed := placed_of inv found
  simp only [Placed, point] at placed
  obtain ⟨awake, calm⟩ := calm_of inv found (Or.inl placed.1)
  refine inv_moveTo inv found awake calm (by simp [point]) (by simp) ?_ ?_
  · simp [point, opened]
  · exact ⟨placed.1, kind⟩

theorem step_return (inv : Invariant s ((k, mode) :: rest))
    (found : s.contexts k = some context) (live : mode.Live)
    (closed : opened context.point = false) (point : context.point ≠ .returning) :
    Invariant (s.moveTo k context .returning) ((k, mode) :: rest) := by
  obtain ⟨awake, calm⟩ := calm_of inv found (Or.inl live)
  refine inv_moveTo inv found awake calm point (by simp) ?_ (Or.inl live)
  simp [closed]

theorem step_started_user (inv : Invariant s ((k, mode) :: rest))
    (found : s.contexts k = some context) {target : Nat} (point : context.point = .inStart target) :
    Invariant (s.moveTo k context .user) ((k, mode) :: rest) := by
  have placed := placed_of inv found
  simp only [Placed, point] at placed
  obtain ⟨awake, calm⟩ := calm_of inv found (Or.inl placed.1)
  refine inv_moveTo inv found awake calm (by simp [point]) (by simp) ?_ placed
  simp [point, opened]

theorem step_starting_end (inv : Invariant s ((k, mode) :: rest))
    (found : s.contexts k = some context) {i count : Nat} {which : Combinator}
    {children : List Nat} (point : context.point = .starting i count)
    (kind : (s.tasks context.inner).kind = .group which children)
    (ended : children[i]? = none) :
    Invariant (s.moveTo k context (.waiting count)) ((k, mode) :: rest) := by
  have placed := placed_of inv found
  simp only [Placed, point] at placed
  obtain ⟨live, which', children', kind', family, -, -, progress⟩ := placed
  rw [kind] at kind'
  cases kind'
  obtain ⟨awake, calm⟩ := calm_of inv found (Or.inl live)
  refine inv_moveTo inv found awake calm (by simp [point]) (by simp) ?_ ?_
  · exact fun _ => Or.inl ⟨rfl, by simp [point, cancels]⟩
  · refine ⟨live, which, children, kind, { family with }, Or.inl ?_⟩
    exact progress_ends (List.getElem?_eq_none_iff.mp ended) progress

theorem step_started_next (inv : Invariant s ((k, mode) :: rest))
    (found : s.contexts k = some context) {i count count' : Nat} {which : Combinator}
    {children : List Nat} (point : context.point = .started i count)
    (kind : (s.tasks context.inner).kind = .group which children)
    (books : (∀ t, children[i]? = some t → (s.tasks t).status ≠ .canceled) →
      Progress s which context.inner children i count →
      Progress s which context.inner children (i + 1) count') :
    Invariant (s.moveTo k context (.starting (i + 1) count')) ((k, mode) :: rest) := by
  have placed := placed_of inv found
  simp only [Placed, point] at placed
  obtain ⟨live, which', children', kind', family, inside, untouched, uncanceled, progress⟩ := placed
  rw [kind] at kind'
  cases kind'
  obtain ⟨awake, calm⟩ := calm_of inv found (Or.inl live)
  refine inv_moveTo inv found awake calm (by simp [point]) (by simp) ?_ ?_
  · exact fun _ => Or.inl ⟨rfl, by simp [point, cancels]⟩
  · exact ⟨live, which, children, kind, { family with }, inside, untouched,
      books uncanceled progress⟩

theorem step_waiting_goal (inv : Invariant s ((k, mode) :: rest))
    (found : s.contexts k = some context) {children : List Nat}
    (point : context.point = .waiting 0)
    (kind : (s.tasks context.inner).kind = .group .allOf children) :
    Invariant (s.moveTo k context .goal) ((k, mode) :: rest) := by
  have placed := placed_of inv found
  simp only [Placed, point] at placed
  obtain ⟨live, which', children', kind', family, books⟩ := placed
  rw [kind] at kind'
  cases kind'
  have completed : ∀ t ∈ children, (s.tasks t).status = .completed := by
    rcases books with waits | ⟨any, -⟩
    · exact unfinished_zero waits.1.symm
    · cases any
  have stopped : ∀ t ∈ children, (s.tasks t).status ≠ .running := by
    intro t member
    simp [completed t member]
  obtain ⟨awake, calm⟩ := calm_of inv found (Or.inl live)
  refine inv_moveTo inv found awake calm (by simp [point]) (by simp) ?_ ?_
  · exact fun _ => Or.inr fun l other there => no_adoptee inv found kind stopped there
  · exact ⟨live, .allOf, children, kind, { family with }, stopped, completed⟩

theorem step_waiting_cancels (inv : Invariant s ((k, mode) :: rest))
    (found : s.contexts k = some context) {count : Nat} {children : List Nat}
    (point : context.point = .waiting count)
    (kind : (s.tasks context.inner).kind = .group .anyOf children)
    (chosen : (s.tasks context.inner).completedId ≠ none) :
    Invariant (s.moveTo k context (.cancelLoop 0 0 .anyRun)) ((k, mode) :: rest) := by
  have placed := placed_of inv found
  simp only [Placed, point] at placed
  obtain ⟨live, which', children', kind', family, books⟩ := placed
  rw [kind] at kind'
  cases kind'
  have picked : Picked s context.inner children := by
    rcases books with ⟨-, none⟩ | ⟨-, picked⟩
    · exact absurd none chosen
    · exact picked
  obtain ⟨awake, calm⟩ := calm_of inv found (Or.inl live)
  refine inv_moveTo inv found awake calm (by simp [point]) (by simp) ?_ ?_
  · exact fun _ => Or.inl ⟨rfl, fun _ => rfl⟩
  · exact ⟨.anyOf, children, kind, { family with }, Nat.zero_le _, by simp [active],
      live, rfl, picked⟩

theorem step_woken_allOf (inv : Invariant s ((k, mode) :: rest))
    (found : s.contexts k = some context) {count : Nat} {children : List Nat}
    (point : context.point = .yielded (.wait count))
    (kind : (s.tasks context.inner).kind = .group .allOf children) (live : mode.Live) :
    Invariant (s.moveTo k context (.waiting (count - 1))) ((k, mode) :: rest) := by
  obtain ⟨awake, calm⟩ := calm_of inv found (Or.inl live)
  obtain ⟨token, rfl⟩ := live
  have placed := placed_of inv found
  simp only [Placed, point] at placed
  obtain ⟨which', children', kind', family, woken⟩ := placed
  rw [kind] at kind'
  cases kind'
  refine inv_moveTo inv found awake calm (by simp [point]) (by simp) ?_ ?_
  · exact fun _ => Or.inl ⟨rfl, by simp [point, cancels]⟩
  · refine ⟨⟨token, rfl⟩, .allOf, children, kind, { family with }, Or.inl ?_⟩
    obtain ⟨counted, uncanceled⟩ := woken
    refine ⟨?_, uncanceled⟩
    change count - 1 = unfinished s children
    omega

theorem step_woken_cancelWait (inv : Invariant s ((k, mode) :: rest))
    (found : s.contexts k = some context) {unsupport : Nat} {caller : CancelCaller}
    (point : context.point = .yielded (.cancelWait unsupport caller)) (live : mode.Live) :
    Invariant (s.moveTo k context (.cancelWait (unsupport - 1) caller)) ((k, mode) :: rest) := by
  obtain ⟨awake, calm⟩ := calm_of inv found (Or.inl live)
  obtain ⟨token, rfl⟩ := live
  have placed := placed_of inv found
  simp only [Placed, point] at placed
  obtain ⟨any, -, protect, children, kind, family, picked, count⟩ := placed
  refine inv_moveTo inv found awake calm (by simp [point]) (by simp) ?_ ?_
  · exact fun _ => Or.inl ⟨rfl, fun _ => rfl⟩
  · refine ⟨any, ⟨token, rfl⟩, protect, children, kind, { family with }, picked, ?_⟩
    change unsupport - 1 = active s children
    omega

theorem same_group {which which' : Combinator} {children children' : List Nat} {t : Nat}
    (kind : (s.tasks t).kind = .group which children)
    (other : (s.tasks t).kind = .group which' children') :
    which' = which ∧ children' = children := by
  rw [kind] at other
  cases other
  exact ⟨rfl, rfl⟩

theorem step_cancelLoop_skip (inv : Invariant s ((k, mode) :: rest))
    (found : s.contexts k = some context) {i unsupport child : Nat} {caller : CancelCaller}
    {which : Combinator} {children : List Nat}
    (point : context.point = .cancelLoop i unsupport caller)
    (kind : (s.tasks context.inner).kind = .group which children)
    (here : children[i]? = some child) (stopped : (s.tasks child).status ≠ .running) :
    Invariant (s.moveTo k context (.cancelLoop (i + 1) unsupport caller))
      ((k, mode) :: rest) := by
  have placed := placed_of inv found
  simp only [Placed, point] at placed
  obtain ⟨which', children', kind', family, -, count, calls⟩ := placed
  obtain ⟨rfl, rfl⟩ := same_group kind kind'
  obtain ⟨awake, calm⟩ := calm_of inv found (Or.inr (by simp [point]))
  refine inv_moveTo inv found awake calm (by simp [point]) (by simp) ?_ ?_
  · exact fun _ => Or.inl ⟨rfl, fun _ => rfl⟩
  · refine ⟨which', children', kind, { family with }, (List.getElem?_eq_some_iff.mp here).1, ?_,
      calls⟩
    change unsupport = active s (children'.take (i + 1))
    rw [active_succ here, if_neg stopped]
    exact count

theorem step_cancelLoop_count (inv : Invariant s ((k, mode) :: rest))
    (found : s.contexts k = some context) {i unsupport child : Nat} {caller : CancelCaller}
    {which : Combinator} {children : List Nat}
    (point : context.point = .cancelLoop i unsupport caller)
    (kind : (s.tasks context.inner).kind = .group which children)
    (here : children[i]? = some child) (running : (s.tasks child).status = .running) :
    Invariant (s.moveTo k context (.cancelLoop (i + 1) (unsupport + 1) caller))
      ((k, mode) :: rest) := by
  have placed := placed_of inv found
  simp only [Placed, point] at placed
  obtain ⟨which', children', kind', family, -, count, calls⟩ := placed
  obtain ⟨rfl, rfl⟩ := same_group kind kind'
  obtain ⟨awake, calm⟩ := calm_of inv found (Or.inr (by simp [point]))
  refine inv_moveTo inv found awake calm (by simp [point]) (by simp) ?_ ?_
  · exact fun _ => Or.inl ⟨rfl, fun _ => rfl⟩
  · refine ⟨which', children', kind, { family with }, (List.getElem?_eq_some_iff.mp here).1, ?_,
      calls⟩
    change unsupport + 1 = active s (children'.take (i + 1))
    rw [active_succ here, if_pos running, count]

theorem step_canceling (inv : Invariant s ((k, mode) :: rest))
    (found : s.contexts k = some context) {i unsupport : Nat} {caller : CancelCaller}
    (point : context.point = .canceling i unsupport caller) :
    Invariant (s.moveTo k context (.cancelLoop (i + 1) unsupport caller))
      ((k, mode) :: rest) := by
  have placed := placed_of inv found
  simp only [Placed, point] at placed
  obtain ⟨which, children, t, kind, family, here, stopped, count, calls⟩ := placed
  obtain ⟨awake, calm⟩ := calm_of inv found (Or.inr (by simp [point]))
  refine inv_moveTo inv found awake calm (by simp [point]) (by simp) ?_ ?_
  · exact fun _ => Or.inl ⟨rfl, fun _ => rfl⟩
  · refine ⟨which, children, kind, { family with }, (List.getElem?_eq_some_iff.mp here).1, ?_,
      calls⟩
    change unsupport = active s (children.take (i + 1))
    rw [active_succ here, if_neg stopped]
    exact count

theorem cancelLoop_ended (inv : Invariant s ((k, mode) :: rest))
    (found : s.contexts k = some context) {i unsupport : Nat} {caller : CancelCaller}
    {which : Combinator} {children : List Nat}
    (point : context.point = .cancelLoop i unsupport caller)
    (kind : (s.tasks context.inner).kind = .group which children)
    (ended : children[i]? = none) :
    Family s k context children ∧ unsupport = active s children ∧
      Placed.Calls s context mode which children caller := by
  have placed := placed_of inv found
  simp only [Placed, point] at placed
  obtain ⟨which', children', kind', family, -, count, calls⟩ := placed
  obtain ⟨rfl, rfl⟩ := same_group kind kind'
  rw [List.take_of_length_le (List.getElem?_eq_none_iff.mp ended)] at count
  exact ⟨family, count, calls⟩

theorem step_cancel_goal (inv : Invariant s ((k, mode) :: rest))
    (found : s.contexts k = some context) {children : List Nat}
    (kind : (s.tasks context.inner).kind = .group .anyOf children)
    (inside : cancels context.point = true) (live : mode.Live)
    (picked : Picked s context.inner children) (stopped : active s children = 0) :
    Invariant (s.moveTo k context .goal) ((k, mode) :: rest) := by
  have family := placed_family (placed_of inv found) kind (cancels_opened inside)
  obtain ⟨awake, calm⟩ := calm_of inv found (Or.inl live)
  refine inv_moveTo inv found awake calm ?_ (by simp) ?_ ?_
  · intro returning
    rw [returning] at inside
    cases inside
  · exact fun _ => Or.inr fun l other there =>
      no_adoptee inv found kind (active_zero stopped) there
  · exact ⟨live, .anyOf, children, kind, { family with }, active_zero stopped, picked⟩

theorem step_cancelLoop_yield (inv : Invariant s ((k, mode) :: rest))
    (found : s.contexts k = some context) {i : Nat} {which : Combinator} {children : List Nat}
    (point : context.point = .cancelLoop i 0 .yield)
    (kind : (s.tasks context.inner).kind = .group which children)
    (ended : children[i]? = none) :
    Invariant (s.moveTo k context .returning) ((k, mode) :: rest) := by
  obtain ⟨family, count, calls⟩ := cancelLoop_ended inv found point kind ended
  obtain ⟨awake, calm⟩ := calm_of inv found (Or.inr (by simp [point]))
  refine inv_moveTo inv found awake calm (by simp [point]) (by simp) ?_ (Or.inr calls)
  exact fun _ => Or.inr fun l other there =>
    no_adoptee inv found kind (active_zero count.symm) there

theorem first_done {children : List Nat} {t : Nat} (inv : Invariant s ((k, mode) :: rest))
    (member : t ∈ children) (completed : (s.tasks t).status = .completed)
    (only : ∀ other ∈ children, (s.tasks other).status = .completed → other = t) :
    FirstDone s children t := by
  unfold FirstDone
  cases search : s.done.find? (fun other => other ∈ children) with
  | none =>
      rw [List.find?_eq_none] at search
      exact absurd member (by simpa using search t ((inv.done t).mpr completed))
  | some first =>
      have child : first ∈ children := by simpa using List.find?_some search
      have ended := (inv.done first).mp (List.mem_of_find?_eq_some search)
      rw [only first child ended]

theorem family_unwritten {children : List Nat} (write : Task → Task)
    (family : Family s k context children) :
    ∀ t ∈ children, (s.setTask context.inner write).tasks t = s.tasks t := by
  intro t child
  refine setTask_other s context.inner write ?_
  rintro rfl
  exact family.apart _ child (inner_mem context)

theorem family_write {children : List Nat} {point : Point} (write : Task → Task)
    (family : Family s k context children) :
    Family ((s.setTask context.inner write).moveTo k context point) k
      { context with point := point } children where
  nodup := family.nodup
  live := family.live
  finish := fun t child => by
    rw [moveTo_tasks, family_unwritten write family t child]
    exact family.finish t child
  apart := family.apart

theorem write_inner {point : Point} (write : Task → Task) :
    ((s.setTask context.inner write).moveTo k context point).tasks
      ({ context with point := point } : Context).inner = write (s.tasks context.inner) :=
  setTask_self ..

-- The rule for steps of a live coroutine that write the mark or the `completed_id` of its
-- innermost task.
theorem inv_write (inv : Invariant s ((k, mode) :: rest)) (found : s.contexts k = some context)
    {write : Task → Task} {point : Point} (live : mode.Live)
    (links : ∀ task : Task, (write task).kind = task.kind ∧ (write task).uid = task.uid ∧
      (write task).reuse = task.reuse ∧ (write task).blockTo = task.blockTo ∧
      (write task).finishTo = task.finishTo)
    (status : ∀ task : Task, (write task).status = task.status)
    (mark : ∀ task : Task, (write task).uninterruptable = task.uninterruptable ∨
      (write task).uninterruptable = true)
    (ready : context.point ≠ .returning) (onward : ∀ at_, point ≠ .yielded at_)
    (shelter : opened point = true ∧ (cancels context.point = true → cancels point = true))
    (placed : Placed ((s.setTask context.inner write).moveTo k context point) k
      { context with point := point } mode) :
    Invariant ((s.setTask context.inner write).moveTo k context point) ((k, mode) :: rest) := by
  obtain ⟨awake, calm⟩ := calm_of inv found (Or.inl live)
  have moves : Moves s ((s.setTask context.inner write).moveTo k context point) k context
      point := by
    refine moves_write inv found (quiet_self awake) ?_ links (Or.inl (status _)) onward
      (fun _ => Or.inl shelter)
    intro t armed
    refine ⟨armed, fun same => ?_⟩
    rw [← same, calm] at armed
    cases armed
  have kept (t : Nat) : ((s.setTask context.inner write).tasks t).status = (s.tasks t).status := by
    by_cases here : t = context.inner
    · rw [here, setTask_self, status]
    · rw [setTask_other _ _ _ here]
  refine inv_moves inv found moves ?_ placed
  refine statuses_moves inv found (fun q different => Function.update_of_ne different _ _) ?_
    (fun t _ => kept t) (fun t _ => ?_) ready onward
  · by_cases here : context.base = context.inner
    · rw [moveTo_tasks, here, setTask_self, (links _).2.2.2.2]
    · rw [moveTo_tasks, setTask_other _ _ _ here]
  · by_cases here : t = context.inner
    · subst here
      rw [moveTo_tasks, setTask_self]
      rcases mark (s.tasks context.inner) with same | marked
      · exact Or.inl same
      · obtain ⟨token, rfl⟩ := live
        exact Or.inr ⟨rfl, by simp, marked⟩
    · exact Or.inl (by rw [moveTo_tasks, setTask_other _ _ _ here])

theorem step_started_chosen (inv : Invariant s ((k, mode) :: rest))
    (found : s.contexts k = some context) {i count child : Nat} {children : List Nat}
    (point : context.point = .started i count)
    (kind : (s.tasks context.inner).kind = .group .anyOf children)
    (here : children[i]? = some child) (completed : (s.tasks child).status = .completed) :
    Invariant ((s.setTask context.inner fun task =>
      { task with completedId := some i }).moveTo k context (.waiting count))
        ((k, mode) :: rest) := by
  have placed := placed_of inv found
  simp only [Placed, point] at placed
  obtain ⟨live, which', children', kind', family, inside, untouched, -, progress⟩ := placed
  obtain ⟨rfl, rfl⟩ := same_group kind kind'
  obtain ⟨none, -⟩ := progress
  have only : ∀ other ∈ children', (s.tasks other).status = .completed → other = child := by
    intro other among ended
    rw [← List.take_append_drop i children', List.drop_eq_getElem_cons inside] at among
    rcases List.mem_append.mp among with earlier | rest
    · exact absurd ended (none other earlier)
    · rcases List.mem_cons.mp rest with same | later
      · rw [same]
        exact (List.getElem?_eq_some_iff.mp here).2
      · rw [(untouched other later).1] at ended
        cases ended
  refine inv_write inv found live (fun _ => ⟨rfl, rfl, rfl, rfl, rfl⟩) (fun _ => rfl)
    (fun _ => Or.inl rfl) (by simp [point]) (by simp) ⟨rfl, by simp [point, cancels]⟩ ?_
  have first : FirstDone s children' child :=
    first_done inv (List.mem_of_getElem? here) completed only
  refine ⟨live, .anyOf, children', ?_, family_write _ family,
    Or.inr ⟨rfl, i, child, ?_, here, first⟩⟩
  · rw [write_inner]
    exact kind
  · rw [write_inner]

theorem step_woken_anyOf (inv : Invariant s ((k, mode) :: rest))
    (found : s.contexts k = some context) {count : Nat} {children : List Nat}
    (point : context.point = .yielded (.wait count))
    (kind : (s.tasks context.inner).kind = .group .anyOf children) (live : mode.Live) :
    Invariant ((s.setTask context.inner fun task => { task with
      completedId := children.findIdx? fun child =>
        (s.tasks child).status = .completed }).moveTo k context (.cancelLoop 0 0 .anyRun))
          ((k, mode) :: rest) := by
  have placed := placed_of inv found
  simp only [Placed, point] at placed
  obtain ⟨which', children', kind', family, woken⟩ := placed
  obtain ⟨rfl, rfl⟩ := same_group kind kind'
  obtain ⟨token, rfl⟩ := id live
  obtain ⟨t, member, completed, first, only⟩ := woken
  obtain ⟨i, search⟩ : ∃ i, children'.findIdx? (fun child =>
      (s.tasks child).status = .completed) = some i := by
    rw [← Option.isSome_iff_exists, List.findIdx?_isSome, List.any_eq_true]
    exact ⟨t, member, by simpa using completed⟩
  have chosen : children'[i]? = some t := by
    obtain ⟨inside, ended, -⟩ := List.findIdx?_eq_some_iff_getElem.mp search
    rw [List.getElem?_eq_getElem inside]
    exact congrArg some (only _ (List.getElem_mem inside) (by simpa using ended))
  refine inv_write inv found live (fun _ => ⟨rfl, rfl, rfl, rfl, rfl⟩) (fun _ => rfl)
    (fun _ => Or.inl rfl) (by simp [point]) (by simp) ⟨rfl, fun _ => rfl⟩ ?_
  refine ⟨.anyOf, children', ?_, family_write _ family, Nat.zero_le _, by simp [active], live,
    rfl, i, t, ?_, chosen, first⟩
  · rw [write_inner]
    exact kind
  · rw [write_inner]
    exact search

theorem step_cancelLoop_marks (inv : Invariant s ((k, mode) :: rest))
    (found : s.contexts k = some context) {i unsupport : Nat} {which : Combinator}
    {children : List Nat} (point : context.point = .cancelLoop i unsupport .anyRun)
    (kind : (s.tasks context.inner).kind = .group which children)
    (ended : children[i]? = none) :
    Invariant ((s.setTask context.inner fun task => { task with
      uninterruptable := true }).moveTo k context (.cancelWait unsupport .anyRun))
        ((k, mode) :: rest) := by
  obtain ⟨family, count, live, rfl, picked⟩ := cancelLoop_ended inv found point kind ended
  refine inv_write inv found live (fun _ => ⟨rfl, rfl, rfl, rfl, rfl⟩) (fun _ => rfl)
    (fun _ => Or.inr rfl) (by simp [point]) (by simp) ⟨rfl, fun _ => rfl⟩ ?_
  refine ⟨rfl, live, ?_, children, ?_, family_write _ family, ?_, ?_⟩
  · rw [write_inner]
  · rw [write_inner]
    exact kind
  · obtain ⟨j, t, chosen, there, first⟩ := picked
    refine ⟨j, t, ?_, there, first⟩
    rw [write_inner]
    exact chosen
  · rw [active_congr (s := s) fun t child => by
      rw [moveTo_tasks, family_unwritten _ family t child]]
    exact count

-- The rule for steps of a coroutine that is being unwound, which set the status of its innermost
-- task.
theorem inv_unwinds (inv : Invariant s ((k, .cancelling) :: rest))
    (found : s.contexts k = some context) {quiet : State} {point : Point}
    (only : quiet = { s with signal := false, armed := quiet.armed })
    (armed : ∀ t, quiet.armed t = true →
      s.armed t = true ∧ (context.inner = t → point = .throwing))
    (onward : ∀ at_, point ≠ .yielded at_)
    (shelter : opened context.point = true →
      (opened point = true ∧ (cancels context.point = true → cancels point = true)) ∨
      ∀ l other, s.contexts l = some other → (s.tasks other.base).finishTo ≠ some k)
    (placed : Placed ((quiet.setStatus context.inner .canceled).moveTo k context point) k
      { context with point := point } .cancelling) :
    Invariant ((quiet.setStatus context.inner .canceled).moveTo k context point)
      ((k, .cancelling) :: rest) := by
  have sound := inv.sound k context found
  rw [modeOf_head] at sound
  have canceled := sound.statuses
  unfold Statuses at canceled
  rw [if_pos rfl] at canceled
  have tasks : quiet.tasks = s.tasks := by rw [only]
  refine inv_moves inv found ?_ ?_ placed
  · refine moves_write inv found only armed (fun _ => ⟨rfl, rfl, rfl, rfl, rfl⟩)
      (Or.inr (Or.inl ⟨rfl, fun alone => ?_⟩)) onward shelter
    rcases inner_base_or_target context with ⟨-, base⟩ | target
    · rw [base]
      exact canceled.1
    · simp [alone] at target
  · refine statuses_unwinds inv found ?_ (fun t _ apart => ?_) (fun t _ => ?_) onward
    · rw [moveTo_tasks, State.setStatus, setTask_self]
    · rw [moveTo_tasks, State.setStatus, setTask_other _ _ _ apart, tasks]
    · by_cases here : t = context.inner
      · rw [moveTo_tasks, State.setStatus, here, setTask_self, tasks]
      · rw [moveTo_tasks, State.setStatus, setTask_other _ _ _ here, tasks]

theorem step_throwing_group (inv : Invariant s ((k, mode) :: rest))
    (found : s.contexts k = some context) {which : Combinator} {children : List Nat}
    (point : context.point = .throwing)
    (kind : (s.tasks context.inner).kind = .group which children) :
    Invariant ((s.setStatus context.inner .canceled).moveTo k context
      (.cancelLoop 0 0 (if context.awaits = [] then .runtime else .await)))
        ((k, mode) :: rest) := by
  have placed := placed_of inv found
  simp only [Placed, point] at placed
  obtain ⟨-, families, way⟩ := placed
  have cancelling : mode = .cancelling := by
    rcases way with cancelling | ⟨-, user, -⟩
    · exact cancelling
    · rw [kind] at user
      cases user
  subst cancelling
  have awake := signal_false inv found (Or.inr (by simp [point]))
  have calm := disarmed inv found (Or.inr (Or.inr (by simp [kind])))
  refine inv_unwinds inv found (quiet_self awake) (fun t armed => ⟨armed, fun same => ?_⟩)
    (by simp) (fun _ => Or.inl ⟨rfl, fun _ => rfl⟩) ?_
  · rw [← same, calm] at armed
    cases armed
  · refine ⟨which, children, ?_, family_write _ (families which children kind), Nat.zero_le _,
      by simp [active], ?_⟩
    · exact (congrArg Task.kind (write_inner _)).trans kind
    · split
      · exact ⟨rfl, ‹_›⟩
      · exact ⟨rfl, ‹_›, congrArg Task.status (write_inner _)⟩

/-- The signal is raised only for a coroutine that is inside a yield and is being unwound. -/
theorem signalled (inv : Invariant s ((k, mode) :: rest)) (found : s.contexts k = some context)
    (raised : s.signal = true) : mode = .cancelling ∧ ∃ at_, context.point = .yielded at_ := by
  obtain ⟨l, other, below, at_, top, there, point⟩ := inv.signal.mp raised
  cases top
  rw [found] at there
  cases there
  exact ⟨rfl, at_, point⟩

theorem head_mode (inv : Invariant s ((k, mode) :: rest)) : mode.Live ∨ mode = .cancelling := by
  cases rest with
  | nil => exact Or.inl ⟨none, inv.nested.2⟩
  | cons entry below =>
      obtain ⟨q, lower⟩ := entry
      obtain ⟨upper, other, -, -, -, waits⟩ := inv.nested.1
      cases point : other.point with
      | inStart target =>
          simp only [point] at waits
          exact Or.inl ⟨_, waits.2.1⟩
      | started i count =>
          simp only [point] at waits
          exact Or.inl ⟨_, waits.1⟩
      | canceling i unsupport caller =>
          simp only [point] at waits
          exact Or.inr waits.1
      | _ => simp [point] at waits

theorem unsignalled (inv : Invariant s ((k, mode) :: rest)) (found : s.contexts k = some context)
    {at_ : YieldAt} (point : context.point = .yielded at_) (quiet : s.signal = false) :
    mode.Live := by
  rcases head_mode inv with live | rfl
  · exact live
  · have raised := inv.signal.mpr ⟨k, context, rest, at_, rfl, found, point⟩
    rw [quiet] at raised
    cases raised

theorem unwound (inv : Invariant s ((k, .cancelling) :: rest))
    (found : s.contexts k = some context) :
    (s.tasks context.base).status = .canceled ∧ ∀ t ∈ context.chain,
      (s.tasks t).uninterruptable = false ∧ ((s.tasks t).status = .running ∨
        (s.tasks t).status = .canceled ∧ ∀ at_, context.point = .yielded at_ → t = context.base) := by
  have sound := inv.sound k context found
  rw [modeOf_head] at sound
  have statuses := sound.statuses
  unfold Statuses at statuses
  rwa [if_pos rfl] at statuses

theorem step_interrupts (inv : Invariant s ((k, mode) :: rest))
    (found : s.contexts k = some context) {at_ : YieldAt} (point : context.point = .yielded at_)
    (raised : s.signal = true) :
    Invariant (({ s with signal := false }.setStatus context.inner .canceled).moveTo k context
      .throwing) ((k, mode) :: rest) := by
  obtain ⟨rfl, -⟩ := signalled inv found raised
  have placed := placed_of inv found
  refine inv_unwinds inv found rfl (fun t armed => ⟨armed, fun _ => rfl⟩) (by simp) ?_ ?_
  · refine fun _ => Or.inl ⟨rfl, fun inside => ?_⟩
    cases at_ with
    | cancelWait unsupport caller =>
        simp only [Placed, point] at placed
        exact absurd rfl placed.2.1
    | _ => simp [point, cancels] at inside
  · refine ⟨fun t member => ?_, fun which children kind => ?_, Or.inl rfl⟩
    · have unprotected := ((unwound inv found).2 t member).1
      by_cases here : t = context.inner
      · rw [moveTo_tasks, State.setStatus, here, setTask_self]
        rw [here] at unprotected
        exact unprotected
      · rw [moveTo_tasks, State.setStatus, setTask_other _ _ _ here]
        exact unprotected
    · have before : (s.tasks context.inner).kind = .group which children :=
        (congrArg Task.kind (write_inner _)).symm.trans kind
      have family : Family s k context children := by
        refine placed_family placed before ?_
        cases at_ with
        | event =>
            simp only [Placed, point] at placed
            rw [before] at placed
            cases placed
        | _ => simp [point, opened]
      exact family_write _ { family with }

-- The rule for a cancelled yield whose task was itself selected: no status is written.
theorem inv_consumes (inv : Invariant s ((k, .cancelling) :: rest))
    (found : s.contexts k = some context) {quiet : State} {at_ : YieldAt} {point : Point}
    (yields : context.point = .yielded at_)
    (only : quiet = { s with signal := false, armed := quiet.armed })
    (armed : ∀ t, quiet.armed t = true → s.armed t = true ∧ context.inner ≠ t)
    (onward : ∀ at_, point ≠ .yielded at_)
    (shelter : opened context.point = true →
      opened point = true ∧ (cancels context.point = true → cancels point = true))
    (placed : Placed (quiet.moveTo k context point) k { context with point := point }
      .cancelling) :
    Invariant (quiet.moveTo k context point) ((k, .cancelling) :: rest) := by
  have unwritten : quiet.setTask context.inner id = quiet := by
    unfold State.setTask
    rw [id, Function.update_eq_self]
  have moves : Moves s ((quiet.setTask context.inner id).moveTo k context point) k context
      point :=
    moves_write inv found only (fun t pending => ⟨(armed t pending).1, fun same =>
      absurd same (armed t pending).2⟩) (fun _ => ⟨rfl, rfl, rfl, rfl, rfl⟩) (Or.inl rfl)
      onward fun open_ => Or.inl (shelter open_)
  rw [unwritten] at moves
  have tasks : quiet.tasks = s.tasks := by rw [only]
  have contexts : quiet.contexts = s.contexts := by rw [only]
  refine inv_moves inv found moves ?_ placed
  refine statuses_moves inv found (fun q apart => ?_) (by rw [moveTo_tasks, tasks])
    (fun t _ => by rw [moveTo_tasks, tasks]) (fun t _ => Or.inl (by rw [moveTo_tasks, tasks]))
    (by simp [yields]) onward
  rw [moves.contexts, Function.update_of_ne apart]

theorem selected_base (inv : Invariant s ((k, .cancelling) :: rest))
    (found : s.contexts k = some context) {at_ : YieldAt} (point : context.point = .yielded at_)
    (canceled : (s.tasks context.inner).status = .canceled) : context.awaits = [] := by
  have base : context.inner = context.base := by
    rcases ((unwound inv found).2 _ (inner_mem context)).2 with running | ⟨-, only⟩
    · rw [canceled] at running
      cases running
    · exact only at_ point
  rcases inner_base_or_target context with ⟨alone, -⟩ | target
  · exact alone
  · exact absurd base (target_ne_base (inv.sound k context found).nodup target)

theorem step_cancels_event (inv : Invariant s ((k, mode) :: rest))
    (found : s.contexts k = some context) {at_ : YieldAt} (point : context.point = .yielded at_)
    (raised : s.signal = true) (canceled : (s.tasks context.inner).status = .canceled)
    (kind : (s.tasks context.inner).kind = .event) :
    Invariant ({ s with
      signal := false
      armed := Function.update s.armed context.inner false }.moveTo k context .returning)
        ((k, mode) :: rest) := by
  obtain ⟨rfl, -⟩ := signalled inv found raised
  have alone := selected_base inv found point canceled
  refine inv_consumes inv found point rfl (fun t pending => ?_) (by simp) (fun open_ => ?_)
    (Or.inr ⟨rfl, alone⟩)
  · change Function.update s.armed context.inner false t = true at pending
    by_cases here : t = context.inner
    · rw [here, Function.update_self] at pending
      cases pending
    · rw [Function.update_of_ne here] at pending
      exact ⟨pending, Ne.symm here⟩
  · have placed := placed_of inv found
    cases at_ with
    | event => simp [point, opened] at open_
    | wait count =>
        simp only [Placed, point] at placed
        obtain ⟨which, children, group, -⟩ := placed
        rw [kind] at group
        cases group
    | cancelWait unsupport caller =>
        simp only [Placed, point] at placed
        exact absurd rfl placed.2.1

theorem step_cancels_group (inv : Invariant s ((k, mode) :: rest))
    (found : s.contexts k = some context) {at_ : YieldAt} (point : context.point = .yielded at_)
    (raised : s.signal = true) (canceled : (s.tasks context.inner).status = .canceled)
    {which : Combinator} {children : List Nat}
    (kind : (s.tasks context.inner).kind = .group which children) :
    Invariant ({ s with signal := false }.moveTo k context (.cancelLoop 0 0 .yield))
      ((k, mode) :: rest) := by
  obtain ⟨rfl, -⟩ := signalled inv found raised
  have alone := selected_base inv found point canceled
  have calm := disarmed inv found (Or.inr (Or.inr (by simp [kind])))
  have placed := placed_of inv found
  have family : Family s k context children := by
    refine placed_family placed kind ?_
    cases at_ with
    | event =>
        simp only [Placed, point] at placed
        rw [kind] at placed
        cases placed
    | _ => simp [point, opened]
  refine inv_consumes inv found point rfl (fun t pending => ⟨pending, fun same => ?_⟩) (by simp)
    (fun _ => ⟨rfl, fun _ => rfl⟩) ?_
  · change s.armed t = true at pending
    rw [← same, calm] at pending
    cases pending
  · exact ⟨which, children, kind, { family with }, Nat.zero_le _, by simp [active], rfl, alone⟩

end Moves

end Cocoflow.SchedulerSteps
