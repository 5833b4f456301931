import Mathlib.Logic.Function.Basic
import Mathlib.Data.List.Basic
import Cocoflow.SchedulerNest

/-!
Steps of the running coroutine that switch to no other one. The stack of coroutines stays as
it is, the other coroutines see nothing, and what has to be shown is that the running one is
sound at its next point.
-/

namespace Cocoflow.SchedulerLocal

open LabelledRuns Scheduler SchedulerNest

section Writes

variable (s : State) (t : Nat) (change : Task → Task)

@[simp] theorem setTask_self : (s.setTask t change).tasks t = change (s.tasks t) :=
  Function.update_self ..

theorem setTask_other {other : Nat} (apart : other ≠ t) :
    (s.setTask t change).tasks other = s.tasks other :=
  Function.update_of_ne apart ..

@[simp] theorem moveTo_tasks (k : Nat) (context : Context) (point : Point) :
    (s.moveTo k context point).tasks = s.tasks := rfl

end Writes

section Facts

variable {s : State} {k : Nat} {mode : Mode} {rest : Nest} {context : Context}

theorem head_not_below (inv : Invariant s ((k, mode) :: rest)) (found : s.contexts k = some context) :
    k ∉ rest.map Prod.fst := by
  intro below
  obtain ⟨lower, same, earlier, -⟩ := nested_below inv.nested found k below
  rw [found] at same
  cases same
  omega

theorem other_point (inv : Invariant s ((k, mode) :: rest)) (found : s.contexts k = some context)
    {l : Nat} {other : Context} (apart : l ≠ k) (there : s.contexts l = some other) :
    switched other.point ∧ l ∈ rest.map Prod.fst ∨
      (∃ at_, other.point = .yielded at_) ∧ modeOf ((k, mode) :: rest) l = .parked := by
  by_cases below : l ∈ rest.map Prod.fst
  · obtain ⟨lower, same, -, waits⟩ := nested_below inv.nested found l below
    rw [there] at same
    cases same
    exact Or.inl ⟨waits, below⟩
  · have parked : modeOf ((k, mode) :: rest) l = .parked :=
      modeOf_absent (by simpa [apart] using below)
    have placed := (inv.sound l other there).placed
    rw [parked] at placed
    exact Or.inr ⟨placed_parked placed, parked⟩

theorem other_not_goal (inv : Invariant s ((k, mode) :: rest)) (found : s.contexts k = some context)
    {l : Nat} {other : Context} (apart : l ≠ k) (there : s.contexts l = some other) :
    other.point ≠ .goal := by
  intro goal
  rcases other_point inv found apart there with ⟨waits, -⟩ | ⟨⟨at_, point⟩, -⟩
  · rw [goal] at waits
    exact waits
  · rw [goal] at point
    cases point

theorem engaged_status {nest : Nest} (inv : Invariant s nest) {l : Nat} {other : Context} {t : Nat}
    (there : s.contexts l = some other) (member : t ∈ other.chain) :
    (s.tasks t).status ≠ .ready ∧ (s.tasks t).status ≠ .limited := by
  have statuses := (inv.sound l other there).statuses
  unfold Statuses at statuses
  split at statuses
  · rcases (statuses.2 t member).2 with running | canceled
    · simp [running]
    · simp [canceled.1]
  · rcases statuses t member with running | unready | flagged
    · simp [running]
    · simp [unready.1]
    · simp [flagged.status]

theorem engaged_once {nest : Nest} (inv : Invariant s nest) {l l' : Nat} {one other : Context}
    {t : Nat} (here : s.contexts l = some one) (there : s.contexts l' = some other)
    (member : t ∈ one.chain) (again : t ∈ other.chain) : l = l' := by
  have first := ((inv.sound l one here).owned t member).2
  have second := ((inv.sound l' other there).owned t again).2
  rw [first] at second
  exact Option.some.inj second

theorem outer_not_base {inside outer : List Nat} {t : Nat} (nodup : context.chain.Nodup)
    (split : context.chain = inside ++ t :: outer) (more : outer ≠ []) : t ≠ context.base := by
  rintro rfl
  have last : context.chain.getLast? = some context.base := by simp [Context.chain]
  rw [split, List.getLast?_append_of_ne_nil _ (by simp)] at last
  obtain ⟨first, others, rfl⟩ := List.exists_cons_of_ne_nil more
  rw [List.getLast?_cons_cons] at last
  have again : context.base ∈ first :: others := List.mem_of_getLast? last
  rw [split] at nodup
  exact (List.nodup_cons.mp (List.nodup_append.mp nodup).2.1).1 again

theorem parked_base (inv : Invariant s ((k, mode) :: rest)) {l : Nat} {other : Context}
    (there : s.contexts l = some other)
    (parked : modeOf ((k, mode) :: rest) l = .parked) :
    (s.tasks other.base).status = .running := by
  have sound := inv.sound l other there
  rw [parked] at sound
  have statuses := sound.statuses
  unfold Statuses at statuses
  rw [if_neg (by simp)] at statuses
  rcases statuses other.base (base_mem other) with running | unready | flagged
  · exact running
  · obtain ⟨at_, point⟩ := placed_parked sound.placed
    have returning := unready.2.2.1
    rw [point] at returning
    cases returning
  · obtain ⟨inside, outer, split, more, -⟩ := flagged.outside
    exact absurd rfl (outer_not_base sound.nodup split more)

-- The coroutine of a child was taken into use after that of its combinator, so it is not below
-- it.
theorem adoptee_parked (inv : Invariant s ((k, mode) :: rest)) (found : s.contexts k = some context)
    {l : Nat} {other : Context} (there : s.contexts l = some other)
    (finish : (s.tasks other.base).finishTo = some k) :
    l ≠ k ∧ modeOf ((k, mode) :: rest) l = .parked := by
  obtain ⟨parent, which, children, same, -, -, earlier, -⟩ :=
    (inv.sound l other there).adopted k finish
  rw [found] at same
  cases same
  have apart : l ≠ k := by
    rintro rfl
    rw [found] at there
    cases there
    omega
  refine ⟨apart, modeOf_absent ?_⟩
  simp only [List.map_cons, List.mem_cons, not_or]
  refine ⟨apart, fun below => ?_⟩
  obtain ⟨lower, again, older, -⟩ := nested_below inv.nested found l below
  rw [there] at again
  cases again
  omega

theorem no_adoptee (inv : Invariant s ((k, mode) :: rest)) (found : s.contexts k = some context)
    {which : Combinator} {children : List Nat}
    (kind : (s.tasks context.inner).kind = .group which children)
    (stopped : ∀ t ∈ children, (s.tasks t).status ≠ .running) {l : Nat} {other : Context}
    (there : s.contexts l = some other) : (s.tasks other.base).finishTo ≠ some k := by
  intro finish
  obtain ⟨parent, which', children', same, kind', -, -, member⟩ :=
    (inv.sound l other there).adopted k finish
  rw [found] at same
  cases same
  rw [kind] at kind'
  cases kind'
  obtain ⟨-, parked⟩ := adoptee_parked inv found there finish
  exact stopped _ member (parked_base inv there parked)

theorem no_adoptee_plain {nest : Nest} (inv : Invariant s nest)
    (found : s.contexts k = some context)
    (plain : ∀ which children, (s.tasks context.inner).kind ≠ .group which children) {l : Nat}
    {other : Context} (there : s.contexts l = some other) :
    (s.tasks other.base).finishTo ≠ some k := by
  intro finish
  obtain ⟨parent, which, children, same, kind, -⟩ := (inv.sound l other there).adopted k finish
  rw [found] at same
  cases same
  exact plain which children kind

theorem child_context {nest : Nest} (inv : Invariant s nest) {children : List Nat}
    (family : Family s k context children) (found : s.contexts k = some context) {t : Nat}
    (member : t ∈ children) (running : (s.tasks t).status = .running) :
    ∃ l other, s.contexts l = some other ∧ other.base = t ∧
      (s.tasks t).finishTo = some k := by
  obtain ⟨l, other, there, engaged⟩ := inv.running t (family.live t member) running
  have finish := family.finish t member
  refine ⟨l, other, there, ?_, finish⟩
  rcases chain_cases engaged with target | base
  · -- An awaited task reports to its own coroutine.
    have own := (inv.sound l other there).awaited t target
    rw [finish] at own
    cases own
    rw [found] at there
    cases there
    exact absurd engaged (family.apart t member)
  · exact base.symm

end Facts

/-- No coroutine has the task on its stack. -/
def Idle (s : State) (t : Nat) : Prop :=
  ∀ l other, s.contexts l = some other → t ∉ other.chain

/-- No open combinator has the task as a child. -/
def Unclaimed (s : State) (t : Nat) : Prop :=
  ∀ l other which children, s.contexts l = some other →
    (s.tasks other.inner).kind = .group which children → opened other.point = true →
      t ∉ children

/-- What a step without switch may change, apart from the place of the running coroutine:
tasks it awaits, its base as far as a parent does not see it, and tasks that nobody runs or
waits for. -/
inductive Change (s s' : State) (k : Nat) (context : Context) (t : Nat) : Prop where
  | same (task : s'.tasks t = s.tasks t) (live : s'.live t = s.live t)
  | target (member : t ∈ context.awaits.map Frame.target)
  | base (here : t = context.base) (alike : Alike (s.tasks t) (s'.tasks t))
      (finish : (s'.tasks t).finishTo = (s.tasks t).finishTo) (live : s'.live t = s.live t)
  | starting (here : t = context.base) (unready : context.awaits = [])
      (entering : context.point = .enter) (uncanceled : (s'.tasks t).status ≠ .canceled)
      (finish : (s'.tasks t).finishTo = (s.tasks t).finishTo) (live : s'.live t = s.live t)
  | idle (alone : Idle s t)
      (unseen : Unclaimed s t ∨ Alike (s.tasks t) (s'.tasks t) ∧
        (s'.tasks t).finishTo = (s.tasks t).finishTo ∧ s'.live t = s.live t)

structure Stays (s s' : State) (k : Nat) (context next : Context) : Prop where
  contexts : s'.contexts = Function.update s.contexts k (some next)
  base : next.base = context.base
  stamp : next.stamp = context.stamp
  clock : s'.clock = s.clock
  change : ∀ t, Change s s' k context t
  kind : ∀ t, s.live t = true → (s'.tasks t).kind = (s.tasks t).kind
  manager : ∀ l other, s.contexts l = some other → s'.manager l = s.manager l
  shelter : opened context.point = true →
    (opened next.point = true ∧ next.inner = context.inner ∧
      (cancels context.point = true → cancels next.point = true)) ∨
    ∀ l other, s.contexts l = some other → (s.tasks other.base).finishTo ≠ some k
  done : ∃ extra, s'.done = s.done ++ extra ∧ ∀ t ∈ extra, t ∈ context.awaits.map Frame.target

section Stay

variable {s s' : State} {k : Nat} {mode : Mode} {rest : Nest} {context next : Context}

theorem cancels_opened {point : Point} (inside : cancels point = true) : opened point = true := by
  cases point with
  | yielded at_ => cases at_ <;> first | rfl | cases inside
  | _ => first | rfl | cases inside

theorem base_finish (inv : Invariant s ((k, mode) :: rest)) (found : s.contexts k = some context)
    (stays : Stays s s' k context next) {l : Nat} {other : Context}
    (there : s.contexts l = some other) :
    (s'.tasks other.base).finishTo = (s.tasks other.base).finishTo := by
  rcases stays.change other.base with ⟨task, -⟩ | member | ⟨-, -, finish, -⟩ |
    ⟨-, -, -, -, finish, -⟩ | ⟨alone, -⟩
  · rw [task]
  · have inside : other.base ∈ context.chain := by simp [Context.chain, member]
    have same := engaged_once inv there found (base_mem other) inside
    subst same
    rw [found] at there
    cases there
    exact absurd rfl (target_ne_base (inv.sound l context found).nodup member)
  · exact finish
  · exact finish
  · exact absurd (base_mem other) (alone l other there)

theorem nested_stays (inv : Invariant s ((k, mode) :: rest)) (found : s.contexts k = some context)
    (stays : Stays s s' k context next) : Nested s' ((k, mode) :: rest) := by
  refine nested_congr inv.nested ?_ ?_ ?_
  · intro l mode below shape other there
    cases shape
    rw [found] at there
    cases there
    exact ⟨next, by rw [stays.contexts, Function.update_self], stays.base, stays.stamp⟩
  · intro l member
    have apart : l ≠ k := by
      rintro rfl
      exact head_not_below inv found member
    rw [stays.contexts, Function.update_of_ne apart]
  · intro l other there
    exact ⟨base_finish inv found stays there,
      stays.kind _ ((inv.sound l other there).owned _ (inner_mem other)).1⟩

theorem entering_link (inv : Invariant s ((k, mode) :: rest)) (found : s.contexts k = some context)
    (entering : context.point = .enter) (alone : context.awaits = []) {l : Nat}
    {other : Context} {which : Combinator} {children : List Nat}
    (there : s.contexts l = some other)
    (kind : (s.tasks other.inner).kind = .group which children)
    (finish : (s.tasks context.base).finishTo = some l) :
    ∃ i count, other.point = .started i count ∧ children[i]? = some context.base := by
  have placed := (inv.sound k context found).placed
  rw [modeOf_head] at placed
  simp only [Placed, entering] at placed
  obtain ⟨⟨token, live⟩, -, started⟩ := placed
  have some_token := started alone (by rw [finish]; simp)
  cases rest with
  | nil => exact absurd inv.nested.2 some_token
  | cons entry below =>
      obtain ⟨q, m⟩ := entry
      obtain ⟨upper, lower, same, foundLower, -, waits⟩ := inv.nested.1
      rw [found] at same
      cases same
      cases point : lower.point with
      | inStart target =>
          simp only [point] at waits
          obtain ⟨rfl, -, none⟩ := waits
          rw [finish] at none
          cases none
      | started i count =>
          simp only [point] at waits
          obtain ⟨-, own, which', children', kind', here⟩ := waits
          rw [finish] at own
          cases own
          rw [there] at foundLower
          cases foundLower
          rw [kind] at kind'
          cases kind'
          exact ⟨i, count, point, here⟩
      | canceling i unsupport caller =>
          simp only [point] at waits
          rw [live] at waits
          cases waits.1
      | _ => simp [point] at waits

theorem target_not_child (inv : Invariant s ((k, mode) :: rest)) (found : s.contexts k = some context)
    {t : Nat} (member : t ∈ context.awaits.map Frame.target) {l : Nat} {other : Context}
    {which : Combinator} {children : List Nat} (apart : l ≠ k)
    (there : s.contexts l = some other)
    (kind : (s.tasks other.inner).kind = .group which children)
    (open_ : opened other.point = true) : t ∉ children := by
  intro child
  have own := (inv.sound k context found).awaited t member
  have family := placed_family (inv.sound l other there).placed kind open_
  rw [family.finish t child] at own
  exact apart (Option.some.inj own)

/-- What the coroutines that report to coroutine `k` need of it: it stays open at the same
combinator, or nobody reports to it. -/
def Shelters (s s' : State) (k : Nat) (reporter : Context) : Prop :=
  (s.tasks reporter.base).finishTo = some k → ∀ context, s.contexts k = some context →
    opened context.point = true →
      ∃ next, s'.contexts k = some next ∧ opened next.point = true ∧
        next.inner = context.inner ∧ next.stamp = context.stamp ∧
        (cancels context.point = true → cancels next.point = true)

-- A coroutine stays sound when nothing that it sees is changed, except the point of coroutine
-- `k`.
theorem sound_sheltered {l : Nat} {other : Context} {mode : Mode} (sound : Sound s l other mode)
    (goal : other.point ≠ .goal)
    (chain : ∀ t ∈ other.chain, s'.tasks t = s.tasks t ∧ s'.live t = s.live t)
    (children : ChildrenKept s s' other) (done : DoneKept s s' other)
    (manager : s'.manager l = s.manager l) (clock : s.clock ≤ s'.clock)
    (kept : ∀ q, q ≠ k → s'.contexts q = s.contexts q)
    (kinds : ∀ q parent, s.contexts q = some parent →
      (s'.tasks parent.inner).kind = (s.tasks parent.inner).kind)
    (shelters : Shelters s s' k other) : Sound s' l other mode := by
  refine sound_frame sound chain children goal manager clock ?_ ?_ done
  · rintro q finish ⟨parent, which, group, found, kind, open_, earlier, member⟩
    by_cases same : q = k
    · subst same
      obtain ⟨next, moved, stillOpen, inner, stamp, -⟩ := shelters finish parent found open_
      refine ⟨next, which, group, moved, ?_, stillOpen, by omega, member⟩
      rw [inner, kinds q parent found]
      exact kind
    · exact ⟨parent, which, group, (kept q same).trans found, (kinds q parent found).trans kind,
        open_, earlier, member⟩
  · rintro ⟨q, parent, finish, found, inside⟩
    have still : (s'.tasks other.base).finishTo = some q := by
      rw [(chain _ (base_mem other)).1]
      exact finish
    by_cases same : q = k
    · subst same
      obtain ⟨next, moved, -, -, -, cancel⟩ :=
        shelters finish parent found (cancels_opened inside)
      exact ⟨q, next, still, moved, cancel inside⟩
    · exact ⟨q, parent, still, (kept q same).trans found, inside⟩

theorem others_stay (inv : Invariant s ((k, mode) :: rest)) (found : s.contexts k = some context)
    (stays : Stays s s' k context next) {l : Nat} {other : Context} (apart : l ≠ k)
    (there : s.contexts l = some other) :
    Sound s' l other (modeOf ((k, mode) :: rest) l) := by
  have sound := inv.sound l other there
  have elsewhere {t : Nat} (mine : t ∈ context.chain) : t ∉ other.chain := fun again =>
    apart (engaged_once inv there found again mine)
  refine sound_sheltered sound (other_not_goal inv found apart there) ?_ ?_ ?_
    (stays.manager l other there) (Nat.le_of_eq stays.clock.symm)
    (fun q different => by rw [stays.contexts, Function.update_of_ne different])
    (fun q parent found => stays.kind _ ((inv.sound q parent found).owned _ (inner_mem parent)).1)
    ?_
  · intro t member
    rcases stays.change t with ⟨task, live⟩ | target | ⟨rfl, -⟩ | ⟨rfl, -⟩ | ⟨alone, -⟩
    · exact ⟨task, live⟩
    · exact absurd member (elsewhere (by simp [Context.chain, target]))
    · exact absurd member (elsewhere (base_mem context))
    · exact absurd member (elsewhere (base_mem context))
    · exact absurd member (alone l other there)
  · intro which children kind open_ t child
    have family := placed_family sound.placed kind open_
    rcases stays.change t with ⟨task, live⟩ | target | ⟨-, alike, finish, live⟩ |
      ⟨rfl, alone, entering, uncanceled, finish, live⟩ | ⟨-, unclaimed | ⟨alike, finish, live⟩⟩
    · exact ⟨live, by rw [task], Or.inl ⟨by rw [task], fun _ => by rw [task]⟩⟩
    · exact absurd child (target_not_child inv found target apart there kind open_)
    · exact ⟨live, finish, Or.inl alike⟩
    · exact ⟨live, finish, Or.inr
        ⟨entering_link inv found entering alone there kind (family.finish _ child), uncanceled⟩⟩
    · exact absurd child (unclaimed l other which children there kind open_)
    · exact ⟨live, finish, Or.inl alike⟩
  · intro which children kind open_ _
    obtain ⟨extra, more, targets⟩ := stays.done
    have none : extra.find? (fun other => other ∈ children) = none := by
      rw [List.find?_eq_none]
      intro t member
      simpa using target_not_child inv found (targets t member) apart there kind open_
    rw [more, List.find?_append, none, Option.or_none]
  · intro finish parent same open_
    rw [found] at same
    cases same
    rcases stays.shelter open_ with ⟨stillOpen, inner, cancel⟩ | none
    · exact ⟨next, by rw [stays.contexts, Function.update_self], stillOpen, inner, stays.stamp,
        cancel⟩
    · exact absurd finish (none l other there)

structure Keeps (s s' : State) (context next : Context) : Prop where
  exec : s'.exec = s.exec
  manager : s'.manager = s.manager
  allocated : s'.next = s.next
  live : ∀ t, s'.live t = true → s.live t = true
  unstarted : ∀ t, s'.live t = true →
    (s'.tasks t).status = .ready ∨ (s'.tasks t).status = .limited →
      (s'.tasks t).status = (s.tasks t).status ∧ (s'.tasks t).uid = (s.tasks t).uid ∧
        (s'.tasks t).reuse = (s.tasks t).reuse ∧
        (s'.tasks t).completedId = (s.tasks t).completedId
  running : ∀ t, s'.live t = true → (s'.tasks t).status = .running →
    t ∈ next.chain ∨ (s.tasks t).status = .running ∧ t ∉ context.chain
  completed : ∀ t, (s.tasks t).status = .completed → (s'.tasks t).status = .completed
  ended : ∀ t ∈ s'.done, t ∈ s.done ∨
    (s'.tasks t).status = .completed ∧ s.live t = true
  recorded : ∀ t, (s'.tasks t).status = .completed →
    (s.tasks t).status = .completed ∨ t ∈ s'.done
  armed : ∀ t, s'.armed t = true → s.armed t = true ∧
    (context.inner = t → next.inner = t ∧ next.point = .throwing)
  signal : s'.signal = false
  moves : ∀ at_, next.point ≠ .yielded at_
  current : ∃ t ∈ next.chain, s'.current = some t

theorem inv_stays (inv : Invariant s ((k, mode) :: rest)) (found : s.contexts k = some context)
    (stays : Stays s s' k context next) (keeps : Keeps s s' context next)
    (sound : Sound s' k next mode) : Invariant s' ((k, mode) :: rest) := by
  have kept (l : Nat) (apart : l ≠ k) : s'.contexts l = s.contexts l := by
    rw [stays.contexts, Function.update_of_ne apart]
  have here : s'.contexts k = some next := by
    rw [stays.contexts, Function.update_self]
  refine { nested := nested_stays inv found stays, exec := keeps.exec.trans inv.exec,
           sound := ?sound, fresh := ?fresh, unused := ?unused, running := ?running,
           bounded := ?bounded, done := ?done, past := ?past, armed := ?armed, signal := ?signal,
           current := ?current }
  case sound =>
      intro l other there
      by_cases same : l = k
      · subst same
        rw [here] at there
        cases there
        rw [modeOf_head]
        exact sound
      · rw [kept l same] at there
        exact others_stay inv found stays same there
  case fresh =>
      intro t live ready
      obtain ⟨status, uid, -⟩ := keeps.unstarted t live (Or.inl ready)
      obtain ⟨j, own, managed, free⟩ := inv.fresh t (keeps.live t live) (status ▸ ready)
      have apart : j ≠ k := by
        rintro rfl
        rw [found] at free
        cases free
      exact ⟨j, uid.trans own, by rw [keeps.manager]; exact managed, (kept j apart).trans free⟩
  case unused =>
      intro t live unstarted
      obtain ⟨status, -, reuse, chosen⟩ := keeps.unstarted t live unstarted
      rw [reuse, chosen]
      exact inv.unused t (keeps.live t live) (status ▸ unstarted)
  case running =>
      intro t live running
      rcases keeps.running t live running with mine | ⟨before, elsewhere⟩
      · exact ⟨k, next, here, mine⟩
      · obtain ⟨l, other, there, member⟩ := inv.running t (keeps.live t live) before
        have apart : l ≠ k := by
          rintro rfl
          rw [found] at there
          cases there
          exact elsewhere member
        exact ⟨l, other, (kept l apart).trans there, member⟩
  case bounded =>
      intro t live
      rw [keeps.allocated]
      exact inv.bounded t (keeps.live t live)
  case done =>
      intro t
      constructor
      · intro member
        rcases keeps.ended t member with old | ⟨status, -⟩
        · exact keeps.completed t ((inv.done t).mp old)
        · exact status
      · intro completed
        rcases keeps.recorded t completed with before | member
        · obtain ⟨extra, more, -⟩ := stays.done
          rw [more]
          exact List.mem_append_left _ ((inv.done t).mpr before)
        · exact member
  case past =>
      intro t member
      rw [keeps.allocated]
      rcases keeps.ended t member with old | ⟨-, live⟩
      · exact inv.past t old
      · exact inv.bounded t live
  case armed =>
      intro t armed
      obtain ⟨before, moved⟩ := keeps.armed t armed
      obtain ⟨event, l, other, there, inner, point, unlive⟩ := inv.armed t before
      have live := ((inv.sound l other there).owned _ (inner_mem other)).1
      rw [inner] at live
      refine ⟨(stays.kind t live).trans event, ?_⟩
      by_cases same : l = k
      · subst same
        rw [found] at there
        cases there
        obtain ⟨sameInner, throwing⟩ := moved inner
        exact ⟨l, next, here, sameInner, Or.inr throwing, unlive⟩
      · exact ⟨l, other, (kept l same).trans there, inner, point, unlive⟩
  case signal =>
      rw [keeps.signal]
      refine ⟨by simp, ?_⟩
      rintro ⟨l, other, below, at_, top, there, point⟩
      cases top
      rw [here] at there
      cases there
      exact absurd point (keeps.moves at_)
  case current =>
      intro l other running there
      have same : l = k := by
        rw [keeps.exec, inv.exec] at running
        exact (Option.some.inj running).symm
      subst same
      rw [here] at there
      cases there
      exact keeps.current

/-- A step that only moves the running coroutine to another point and writes the status, the
mark or the `completed_id` of its innermost task. -/
structure Moves (s s' : State) (k : Nat) (context : Context) (point : Point) : Prop where
  contexts : s'.contexts = Function.update s.contexts k (some { context with point := point })
  exec : s'.exec = s.exec
  clock : s'.clock = s.clock
  manager : s'.manager = s.manager
  allocated : s'.next = s.next
  live : s'.live = s.live
  done : s'.done = s.done
  current : s'.current = s.current
  signal : s'.signal = false
  tasks : ∀ t, t ≠ context.inner → s'.tasks t = s.tasks t
  kind : (s'.tasks context.inner).kind = (s.tasks context.inner).kind
  uid : (s'.tasks context.inner).uid = (s.tasks context.inner).uid
  reuse : (s'.tasks context.inner).reuse = (s.tasks context.inner).reuse
  blockTo : (s'.tasks context.inner).blockTo = (s.tasks context.inner).blockTo
  finishTo : (s'.tasks context.inner).finishTo = (s.tasks context.inner).finishTo
  started : (s'.tasks context.inner).status ≠ .ready ∧ (s'.tasks context.inner).status ≠ .limited
  unended : (s.tasks context.inner).status ≠ .completed
  unrecorded : (s'.tasks context.inner).status ≠ .completed
  base : context.awaits = [] → (s'.tasks context.inner).status = (s.tasks context.inner).status ∨
    context.point = .enter ∧ (s'.tasks context.inner).status ≠ .canceled
  armed : ∀ t, s'.armed t = true → s.armed t = true ∧ (context.inner = t → point = .throwing)
  onward : ∀ at_, point ≠ .yielded at_
  shelter : opened context.point = true →
    (opened point = true ∧ (cancels context.point = true → cancels point = true)) ∨
    ∀ l other, s.contexts l = some other → (s.tasks other.base).finishTo ≠ some k

variable {point : Point}

theorem moves_chain (context : Context) (point : Point) :
    ({ context with point := point } : Context).chain = context.chain := rfl

theorem moves_inner (context : Context) (point : Point) :
    ({ context with point := point } : Context).inner = context.inner := rfl

theorem inner_base_or_target (context : Context) :
    context.awaits = [] ∧ context.inner = context.base ∨
      context.inner ∈ context.awaits.map Frame.target := by
  unfold Context.inner
  cases context.awaits with
  | nil => exact Or.inl ⟨rfl, rfl⟩
  | cons frame outer => exact Or.inr (by simp)

theorem moves_stays (moves : Moves s s' k context point) :
    Stays s s' k context { context with point := point } where
  contexts := moves.contexts
  base := rfl
  stamp := rfl
  clock := moves.clock
  change := fun t => by
    by_cases same : t = context.inner
    · subst same
      rcases inner_base_or_target context with ⟨alone, here⟩ | target
      · rcases moves.base alone with status | ⟨entering, uncanceled⟩
        · exact .base here ⟨status, fun _ => moves.blockTo⟩ moves.finishTo (by rw [moves.live])
        · exact .starting here alone entering uncanceled moves.finishTo (by rw [moves.live])
      · exact .target target
    · exact .same (moves.tasks t same) (by rw [moves.live])
  kind := fun t _ => by
    by_cases same : t = context.inner
    · subst same
      exact moves.kind
    · rw [moves.tasks t same]
  manager := fun l other _ => by rw [moves.manager]
  shelter := fun open_ => by
    rcases moves.shelter open_ with ⟨stillOpen, still⟩ | none
    · exact Or.inl ⟨stillOpen, rfl, still⟩
    · exact Or.inr none
  done := ⟨[], by simp [moves.done], by simp⟩

theorem moves_keeps (inv : Invariant s ((k, mode) :: rest)) (found : s.contexts k = some context)
    (moves : Moves s s' k context point) : Keeps s s' context { context with point := point } where
  exec := moves.exec
  manager := moves.manager
  allocated := moves.allocated
  live := fun t live => by rwa [moves.live] at live
  unstarted := fun t live unstarted => by
    by_cases same : t = context.inner
    · subst same
      rcases unstarted with ready | limited
      · exact absurd ready moves.started.1
      · exact absurd limited moves.started.2
    · rw [moves.tasks t same]
      exact ⟨rfl, rfl, rfl, rfl⟩
  running := fun t live running => by
    by_cases member : t ∈ context.chain
    · exact Or.inl member
    · have apart : t ≠ context.inner := fun same => member (same ▸ inner_mem context)
      rw [moves.tasks t apart] at running
      exact Or.inr ⟨running, member⟩
  completed := fun t completed => by
    have apart : t ≠ context.inner := fun same => moves.unended (same ▸ completed)
    rw [moves.tasks t apart]
    exact completed
  ended := fun t member => Or.inl (by rwa [moves.done] at member)
  recorded := fun t completed => by
    have apart : t ≠ context.inner := fun same => moves.unrecorded (same ▸ completed)
    rw [moves.tasks t apart] at completed
    exact Or.inl completed
  armed := fun t armed => ⟨(moves.armed t armed).1, fun here =>
    ⟨here, (moves.armed t armed).2 here⟩⟩
  signal := moves.signal
  moves := moves.onward
  current := by
    rw [moves.current]
    exact inv.current k context (by rw [inv.exec]; rfl) found

theorem moves_sound (inv : Invariant s ((k, mode) :: rest)) (found : s.contexts k = some context)
    (moves : Moves s s' k context point)
    (statuses : Statuses s' { context with point := point } mode)
    (placed : Placed s' k { context with point := point } mode) :
    Sound s' k { context with point := point } mode := by
  have sound := inv.sound k context found
  rw [modeOf_head] at sound
  have fields (t : Nat) : (s'.tasks t).kind = (s.tasks t).kind ∧
      (s'.tasks t).uid = (s.tasks t).uid ∧ (s'.tasks t).reuse = (s.tasks t).reuse ∧
      (s'.tasks t).blockTo = (s.tasks t).blockTo ∧
      (s'.tasks t).finishTo = (s.tasks t).finishTo := by
    by_cases same : t = context.inner
    · subst same
      exact ⟨moves.kind, moves.uid, moves.reuse, moves.blockTo, moves.finishTo⟩
    · rw [moves.tasks t same]
      exact ⟨rfl, rfl, rfl, rfl, rfl⟩
  refine { owned := ?owned, nodup := sound.nodup,
           manager := by rw [moves.manager]; exact sound.manager,
           stamp := by rw [moves.clock]; exact sound.stamp,
           mirrors := mirrors_congr (fun t _ => (fields t).2.2.1) sound.mirrors,
           parents := sound.parents, outer := ?outer, awaited := ?awaited, token := ?token,
           spent := fun at_ yields => absurd yields (moves.onward at_), adopted := ?adopted,
           statuses := statuses, placed := placed }
  case owned =>
      intro t member
      rw [moves.live, (fields t).2.1]
      exact sound.owned t member
  case outer =>
      intro t member
      rw [(fields t).1, (fields t).2.2.2.1]
      exact sound.outer t member
  case awaited =>
      intro t member
      rw [(fields t).2.2.2.2]
      exact sound.awaited t member
  case token =>
      rw [moves_inner, moves.blockTo]
      exact sound.token
  case adopted =>
      intro q finish
      rw [(fields _).2.2.2.2] at finish
      obtain ⟨parent, which, children, there, kind, open_, earlier, member⟩ :=
        sound.adopted q finish
      have apart : q ≠ k := by
        rintro rfl
        rw [found] at there
        cases there
        omega
      refine ⟨parent, which, children, ?_, (fields _).1.trans kind, open_, earlier, member⟩
      rw [moves.contexts, Function.update_of_ne apart]
      exact there

-- The rule for moves: only the statuses and the new place are left to show.
theorem inv_moves (inv : Invariant s ((k, mode) :: rest)) (found : s.contexts k = some context)
    (moves : Moves s s' k context point)
    (statuses : Statuses s' { context with point := point } mode)
    (placed : Placed s' k { context with point := point } mode) :
    Invariant s' ((k, mode) :: rest) :=
  inv_stays inv found (moves_stays moves) (moves_keeps inv found moves)
    (moves_sound inv found moves statuses placed)

theorem signal_false (inv : Invariant s ((k, mode) :: rest)) (found : s.contexts k = some context)
    (awake : mode ≠ .cancelling ∨ ∀ at_, context.point ≠ .yielded at_) : s.signal = false := by
  cases raised : s.signal with
  | false => rfl
  | true =>
      obtain ⟨l, other, below, at_, top, there, point⟩ := inv.signal.mp raised
      cases top
      rw [found] at there
      cases there
      rcases awake with uncancelled | onward
      · exact absurd rfl uncancelled
      · exact absurd point (onward at_)

theorem disarmed (inv : Invariant s ((k, mode) :: rest)) (found : s.contexts k = some context)
    (awake : mode.Live ∨ context.point ≠ .yielded .event ∧ context.point ≠ .throwing ∨
      (s.tasks context.inner).kind ≠ .event) : s.armed context.inner = false := by
  cases pending : s.armed context.inner with
  | false => rfl
  | true =>
      obtain ⟨event, l, other, there, inner, point, unlive⟩ := inv.armed _ pending
      have same : l = k := by
        have owner := ((inv.sound l other there).owned _ (inner_mem other)).2
        have mine := ((inv.sound k context found).owned _ (inner_mem context)).2
        rw [inner, mine] at owner
        exact (Option.some.inj owner).symm
      subst same
      rw [found] at there
      cases there
      rw [modeOf_head] at unlive
      rcases awake with live | ⟨notYielded, notThrowing⟩ | other
      · exact absurd live unlive
      · rcases point with yielded | throwing
        · exact absurd yielded notYielded
        · exact absurd throwing notThrowing
      · exact absurd event other

theorem parent_apart (inv : Invariant s ((k, mode) :: rest)) (found : s.contexts k = some context)
    {q : Nat} (finish : (s.tasks context.base).finishTo = some q) : q ≠ k := by
  obtain ⟨parent, which, children, there, -, -, earlier, -⟩ :=
    (inv.sound k context found).adopted q finish
  rintro rfl
  rw [found] at there
  cases there
  omega

theorem doomed_stays (inv : Invariant s ((k, mode) :: rest)) (found : s.contexts k = some context)
    (contexts : ∀ q, q ≠ k → s'.contexts q = s.contexts q) (base : next.base = context.base)
    (finish : (s'.tasks context.base).finishTo = (s.tasks context.base).finishTo)
    (doomed : Doomed s context) : Doomed s' next := by
  obtain ⟨q, parent, own, there, inside⟩ := doomed
  refine ⟨q, parent, ?_, ?_, inside⟩
  · rw [base, finish]
    exact own
  · rw [contexts q (parent_apart inv found own)]
    exact there

theorem inner_not_outer {inside outer : List Nat} {t : Nat} (nodup : context.chain.Nodup)
    (split : context.chain = inside ++ t :: outer) : context.inner ∉ outer := by
  intro later
  rw [chain_cons] at split nodup
  have absent : context.inner ∉ context.chain.tail := (List.nodup_cons.mp nodup).1
  cases inside with
  | nil =>
      obtain ⟨-, rfl⟩ := List.cons.inj split
      exact absent later
  | cons first others =>
      obtain ⟨-, tail⟩ := List.cons.inj split
      rw [tail] at absent
      exact absent (by simp [later])

theorem statuses_repoint (statuses : Statuses s context mode) (nodup : context.chain.Nodup)
    (doomed : Doomed s context → Doomed s' { context with point := point })
    (same : ∀ t ∈ context.chain, (s'.tasks t).status = (s.tasks t).status)
    (marks : ∀ t ∈ context.chain,
      (s'.tasks t).uninterruptable = (s.tasks t).uninterruptable ∨
        t = context.inner ∧ mode ≠ .cancelling ∧ (s'.tasks t).uninterruptable = true)
    (ready : context.point ≠ .returning) (onward : ∀ at_, point ≠ .yielded at_) :
    Statuses s' { context with point := point } mode := by
  unfold Statuses at statuses ⊢
  split
  · rename_i cancelling
    rw [if_pos cancelling] at statuses
    refine ⟨(same _ (base_mem context)).trans statuses.1, ?_⟩
    intro t member
    rw [moves_chain] at member
    rw [same t member, (marks t member).resolve_right fun marked => marked.2.1 cancelling]
    obtain ⟨unprotected, running | ⟨canceled, -⟩⟩ := statuses.2 t member
    · exact ⟨unprotected, Or.inl running⟩
    · exact ⟨unprotected, Or.inr ⟨canceled, fun at_ same => absurd same (onward at_)⟩⟩
  · rename_i uncancelled
    rw [if_neg uncancelled] at statuses
    intro t member
    rw [moves_chain] at member
    rcases statuses t member with running | unready | flagged
    · exact Or.inl ((same t member).trans running)
    · exact absurd unready.2.2.1 ready
    · obtain ⟨status, protect, token, sheltered, inside, outer, split, more, outside⟩ := flagged
      have still : (s'.tasks t).uninterruptable = true := by
        rcases marks t member with kept | marked
        · exact kept.trans protect
        · exact marked.2.2
      refine Or.inr (Or.inr ⟨(same t member).trans status, still, token, doomed sheltered, inside,
        outer, split, more, ?_⟩)
      intro other later
      rcases marks other (by simp [split, later]) with kept | ⟨rfl, -⟩
      · exact kept.trans (outside other later)
      · exact absurd later (inner_not_outer nodup split)

theorem statuses_moves (inv : Invariant s ((k, mode) :: rest)) (found : s.contexts k = some context)
    (contexts : ∀ q, q ≠ k → s'.contexts q = s.contexts q)
    (finish : (s'.tasks context.base).finishTo = (s.tasks context.base).finishTo)
    (same : ∀ t ∈ context.chain, (s'.tasks t).status = (s.tasks t).status)
    (marks : ∀ t ∈ context.chain,
      (s'.tasks t).uninterruptable = (s.tasks t).uninterruptable ∨
        t = context.inner ∧ mode ≠ .cancelling ∧ (s'.tasks t).uninterruptable = true)
    (ready : context.point ≠ .returning) (onward : ∀ at_, point ≠ .yielded at_) :
    Statuses s' { context with point := point } mode := by
  have sound := inv.sound k context found
  rw [modeOf_head] at sound
  exact statuses_repoint sound.statuses sound.nodup (doomed_stays inv found contexts rfl finish)
    same marks ready onward

theorem statuses_unwinds (inv : Invariant s ((k, .cancelling) :: rest))
    (found : s.contexts k = some context)
    (canceled : (s'.tasks context.inner).status = .canceled)
    (same : ∀ t ∈ context.chain, t ≠ context.inner →
      (s'.tasks t).status = (s.tasks t).status)
    (marks : ∀ t ∈ context.chain, (s'.tasks t).uninterruptable = (s.tasks t).uninterruptable)
    (onward : ∀ at_, point ≠ .yielded at_) :
    Statuses s' { context with point := point } .cancelling := by
  have sound := inv.sound k context found
  rw [modeOf_head] at sound
  have statuses := sound.statuses
  unfold Statuses at statuses ⊢
  rw [if_pos rfl] at statuses ⊢
  have status (t : Nat) (member : t ∈ context.chain) : (s'.tasks t).status = .canceled ∨
      (s'.tasks t).status = (s.tasks t).status := by
    by_cases here : t = context.inner
    · subst here
      exact Or.inl canceled
    · exact Or.inr (same t member here)
  constructor
  · rcases status _ (base_mem context) with now | kept
    · exact now
    · exact kept.trans statuses.1
  · intro t member
    rw [moves_chain] at member
    rw [marks t member]
    obtain ⟨unprotected, before⟩ := statuses.2 t member
    refine ⟨unprotected, ?_⟩
    rcases status t member with now | kept
    · exact Or.inr ⟨now, fun at_ same => absurd same (onward at_)⟩
    · rw [kept]
      rcases before with running | ⟨already, -⟩
      · exact Or.inl running
      · exact Or.inr ⟨already, fun at_ same => absurd same (onward at_)⟩

theorem unended {nest : Nest} (inv : Invariant s nest) (found : s.contexts k = some context) {t : Nat}
    (member : t ∈ context.chain) : (s.tasks t).status ≠ .completed := by
  have statuses := (inv.sound k context found).statuses
  unfold Statuses at statuses
  split at statuses
  · rcases (statuses.2 t member).2 with running | canceled
    · simp [running]
    · simp [canceled.1]
  · rcases statuses t member with running | unready | flagged
    · simp [running]
    · simp [unready.1]
    · simp [flagged.status]

theorem inv_moveTo (inv : Invariant s ((k, mode) :: rest)) (found : s.contexts k = some context)
    (awake : s.signal = false) (calm : s.armed context.inner = false)
    (ready : context.point ≠ .returning) (onward : ∀ at_, point ≠ .yielded at_)
    (shelter : opened context.point = true →
      (opened point = true ∧ (cancels context.point = true → cancels point = true)) ∨
      ∀ l other, s.contexts l = some other → (s.tasks other.base).finishTo ≠ some k)
    (placed : Placed (s.moveTo k context point) k { context with point := point } mode) :
    Invariant (s.moveTo k context point) ((k, mode) :: rest) := by
  refine inv_moves inv found ?_ ?_ placed
  · exact {
      contexts := rfl, exec := rfl, clock := rfl, manager := rfl, allocated := rfl, live := rfl
      done := rfl, current := rfl, signal := awake, tasks := fun _ _ => rfl, kind := rfl
      uid := rfl, reuse := rfl, blockTo := rfl, finishTo := rfl
      started := engaged_status inv found (inner_mem context)
      unended := unended inv found (inner_mem context)
      unrecorded := unended inv found (inner_mem context)
      base := fun _ => Or.inl rfl
      armed := fun t armed => ⟨armed, fun here => by
        subst here
        change s.armed context.inner = true at armed
        rw [calm] at armed
        cases armed⟩
      onward := onward
      shelter := shelter }
  · refine statuses_moves inv found (fun q apart => ?_) rfl (fun _ _ => rfl)
      (fun _ _ => Or.inl rfl) ready onward
    exact Function.update_of_ne apart _ _

theorem quiet_self (awake : s.signal = false) :
    s = { s with signal := false, armed := s.armed } := by
  rw [← awake]

theorem moves_write (inv : Invariant s ((k, mode) :: rest)) (found : s.contexts k = some context)
    {quiet : State} {write : Task → Task}
    (only : quiet = { s with signal := false, armed := quiet.armed })
    (armed : ∀ t, quiet.armed t = true →
      s.armed t = true ∧ (context.inner = t → point = .throwing))
    (links : ∀ task : Task, (write task).kind = task.kind ∧ (write task).uid = task.uid ∧
      (write task).reuse = task.reuse ∧ (write task).blockTo = task.blockTo ∧
      (write task).finishTo = task.finishTo)
    (status : (write (s.tasks context.inner)).status = (s.tasks context.inner).status ∨
      (write (s.tasks context.inner)).status = .canceled ∧
        (context.awaits = [] → (s.tasks context.inner).status = .canceled) ∨
      (write (s.tasks context.inner)).status = .childUnready ∧ context.point = .enter)
    (onward : ∀ at_, point ≠ .yielded at_)
    (shelter : opened context.point = true →
      (opened point = true ∧ (cancels context.point = true → cancels point = true)) ∨
      ∀ l other, s.contexts l = some other → (s.tasks other.base).finishTo ≠ some k) :
    Moves s ((quiet.setTask context.inner write).moveTo k context point) k context point := by
  have written : ((quiet.setTask context.inner write).moveTo k context point).tasks
      context.inner = write (s.tasks context.inner) := by
    rw [moveTo_tasks, setTask_self, only]
  have engaged := engaged_status inv found (inner_mem context)
  have open_ := unended inv found (inner_mem context)
  obtain ⟨kind, uid, reuse, blockTo, finishTo⟩ := links (s.tasks context.inner)
  rw [← written] at kind uid reuse blockTo finishTo status
  refine { contexts := ?contexts, exec := ?exec, clock := ?clock, manager := ?manager,
           allocated := ?allocated, live := ?live, done := ?done, current := ?current,
           signal := ?signal, tasks := ?tasks, kind := kind, uid := uid, reuse := reuse,
           blockTo := blockTo, finishTo := finishTo, started := ?started, unended := open_,
           unrecorded := ?unrecorded, base := ?base, armed := armed, onward := onward,
           shelter := shelter }
  case tasks =>
    intro t apart
    rw [moveTo_tasks, setTask_other _ _ _ apart, only]
  case started =>
    rcases status with same | canceled | unready
    · rw [same]
      exact engaged
    · rw [canceled.1]
      simp
    · rw [unready.1]
      simp
  case unrecorded =>
    rcases status with same | canceled | unready
    · rw [same]
      exact open_
    · rw [canceled.1]
      simp
    · rw [unready.1]
      simp
  case base =>
    intro alone
    rcases status with same | canceled | unready
    · exact Or.inl same
    · exact Or.inl (canceled.1.trans (canceled.2 alone).symm)
    · refine Or.inr ⟨unready.2, ?_⟩
      rw [unready.1]
      simp
  all_goals rw [only]; rfl

end Stay

end Cocoflow.SchedulerLocal
