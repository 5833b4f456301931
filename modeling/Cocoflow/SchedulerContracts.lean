import Mathlib.Logic.Function.Basic
import Mathlib.Data.List.Basic
import Cocoflow.SchedulerFrame

/-!
What the scheduler promises to its programs, in every state of every regular run: `any_of`
and `all_of` return when their children have ended, `start` returns when its task first
blocks, the cancellation signal reaches the coroutine it is meant for, and an uninterruptable
task is left alone. Each promise is followed by a disciplined run that breaks it where the
run is not regular.
-/

namespace Cocoflow.SchedulerContracts

open LabelledRuns Scheduler SchedulerNest SchedulerLocal SchedulerSteps SchedulerObjects
open SchedulerRuns SchedulerFrame

section Families

variable {s : State} {nest : Nest} {k : Nat} {context : Context} {children : List Nat}

theorem closed_idle (inv : Invariant s nest) (found : s.contexts k = some context)
    (family : Family s k context children) (closed : opened context.point = false) :
    ∀ t ∈ children, Idle s t := by
  intro t member l other there onStack
  have sound := inv.sound l other there
  have finish := family.finish t member
  rcases chain_cases onStack with awaited | rfl
  · rw [sound.awaited t awaited] at finish
    cases finish
    rw [there] at found
    cases found
    exact family.apart t member onStack
  · obtain ⟨parent, which, others, parentFound, -, open_, -⟩ := sound.adopted k finish
    rw [found] at parentFound
    cases parentFound
    rw [closed] at open_
    cases open_

theorem head_found {mode : Mode} {rest : Nest} (nested : Nested s ((k, mode) :: rest)) :
    ∃ context, s.contexts k = some context := by
  cases rest with
  | nil => exact nested.1
  | cons entry below =>
      obtain ⟨upper, -, found, -⟩ := nested.1
      exact ⟨upper, found⟩

theorem suspended_parked (inv : Invariant s nest) (found : s.contexts k = some context)
    {at_ : YieldAt} (point : context.point = .yielded at_) (suspended : s.exec ≠ some k) :
    modeOf nest k = .parked := by
  cases nest with
  | nil => rfl
  | cons entry rest =>
      obtain ⟨top, mode⟩ := entry
      have exec : s.exec = some top := inv.exec
      have apart : k ≠ top := by
        rintro rfl
        exact suspended exec
      obtain ⟨head, running⟩ := head_found inv.nested
      rcases other_point inv running apart found with ⟨waits, -⟩ | ⟨-, parked⟩
      · simp [point, switched] at waits
      · exact parked

end Families

/-- Where an `any_of` is about to return, its children have ended and `completed_id` is the
index of the one that completed first. -/
def AnyOfSettled (s : State) : Prop :=
  ∀ k context children, s.contexts k = some context → context.point = .goal →
    (s.tasks context.inner).kind = .group .anyOf children →
      (∀ t ∈ children, (s.tasks t).status ≠ .running ∧ Idle s t) ∧
        Picked s context.inner children

section AnyOf

variable {s : State} {labels : List Label}

/-- In every regular run `any_of::run` returns only when none of its children is left on a
coroutine. -/
theorem any_of_settled (along : Along step Regular {} labels)
    (run : replay step {} labels = some s) : AnyOfSettled s := by
  obtain ⟨nest, inv⟩ := nested_along along run
  intro k context children found point kind
  have placed := (inv.sound k context found).placed
  simp only [Placed, point] at placed
  obtain ⟨-, which, others, same, family, stopped, result⟩ := placed
  rw [kind] at same
  cases same
  have idle := closed_idle inv found family (by simp [point, opened])
  exact ⟨fun t member => ⟨stopped t member, idle t member⟩, result⟩

def firstOfTwo : List Label :=
  [.construct .user (some 0), .construct .event (some 1), .construct .event (some 2),
    .construct (.group .anyOf [1, 2]) none, .cocoflow 0, .tau, .await 3, .tau,
    .tau, .block, .tau, .tau, .block, .tau, .tau, .tau,
    .event 2, .tau, .tau, .tau, .tau, .tau, .tau, .tau, .tau, .tau]

theorem any_of_settled_two : ∃ s, replay step {} firstOfTwo = some s ∧
    (running s).map Context.point = some .goal ∧ AnyOfSettled s := by
  have reached : (replay step {} firstOfTwo).isSome := by decide +kernel
  refine ⟨_, (Option.some_get reached).symm, by decide +kernel +revert, ?_⟩
  have regular : Along step Regular {} firstOfTwo := by decide +kernel
  exact any_of_settled regular (Option.some_get reached).symm

/-- `any_of(sleep, all_of(sleep), sleep)` where the sleep in `all_of` is uninterruptable. The
first sleep ends, the cancelled `all_of` waits for its child in the event loop, and the end
of the third sleep wakes `any_of` in its place. -/
def wokenInCancel : List Label :=
  [.construct .user (some 0), .construct .event (some 1), .construct .event (some 2),
    .uninterruptable 2, .construct (.group .allOf [2]) (some 3), .construct .event (some 4),
    .construct (.group .anyOf [1, 3, 4]) none, .cocoflow 0, .tau, .await 5, .tau,
    .tau, .block, .tau, .tau, .tau, .tau, .block, .tau, .tau, .tau, .tau, .tau, .block,
    .tau, .tau, .tau, .event 1, .tau, .tau, .tau, .tau, .tau, .tau, .tau, .tau, .tau,
    .event 4, .tau, .tau, .tau, .tau, .tau]

theorem any_of_unsettled : ¬∀ labels s, Along step Disciplined {} labels →
    replay step {} labels = some s → AnyOfSettled s := by
  intro claimed
  have reached : (replay step {} wokenInCancel).isSome := by decide +kernel
  have waits : ((replay step {} wokenInCancel).get reached).contexts 3 =
      some ⟨3, [], .yielded (.cancelWait 1 .yield), 2⟩ := by decide +kernel +revert
  obtain ⟨ended, -⟩ := claimed wokenInCancel _ (by decide +kernel) (Option.some_get reached).symm
    0 ⟨0, [⟨0, 5⟩], .goal, 0⟩ [1, 3, 4] (by decide +kernel +revert) rfl (by decide +kernel +revert)
  exact (ended 3 (by decide)).2 3 _ waits (by decide)

end AnyOf

/-- The coroutine of the task is in use, and neither the task nor one that it awaits has
blocked. -/
def Advances (s : State) (t : Nat) : Prop :=
  ∃ k context, s.contexts k = some context ∧ context.base = t ∧
    ∀ at_, context.point ≠ .yielded at_

/-- A `start` that has not returned is not in the event loop, and it returns with the very
step in which its task first blocks or finishes. -/
def StartReturns (s : State) : Prop :=
  ∀ q context t, s.contexts q = some context → context.point = .inStart t → s.exec ≠ some q →
    s.exec ≠ none ∧ Advances s t ∧ ∀ label s', Regular s label → step s label = some s' →
      (s'.exec = some q ↔ ¬Advances s' t)

section Start

variable {s s' : State} {nest : Nest} {q t : Nat} {context : Context} {labels : List Label}

theorem link_above {k : Nat} {mode : Mode} {rest : Nest} (nested : Nested s ((k, mode) :: rest))
    (below : q ∈ rest.map Prod.fst) :
    ∃ j ∈ ((k, mode) :: rest).map Prod.fst, Link s j (modeOf ((k, mode) :: rest) j) q := by
  induction rest generalizing k mode with
  | nil => cases below
  | cons entry rest ih =>
      obtain ⟨p, under⟩ := entry
      by_cases next : q = p
      · subst next
        refine ⟨k, by simp, ?_⟩
        rw [modeOf_head]
        exact nested.1
      · obtain ⟨j, member, link⟩ := ih nested.2 (by simpa [next] using below)
        refine ⟨j, List.mem_cons_of_mem _ member, ?_⟩
        have apart : j ≠ k := by
          rintro rfl
          obtain ⟨head, found⟩ := head_found nested
          obtain ⟨lower, same, earlier, -⟩ := nested_below nested found j member
          rw [found] at same
          cases same
          omega
        rw [modeOf_tail _ _ apart]
        exact link

theorem start_advances (inv : Invariant s nest) (found : s.contexts q = some context)
    (point : context.point = .inStart t) (away : s.exec ≠ some q) :
    s.exec ≠ none ∧ Advances s t := by
  have placed := (inv.sound q context found).placed
  simp only [Placed, point] at placed
  obtain ⟨⟨token, live⟩, -⟩ := placed
  cases nest with
  | nil => cases live
  | cons entry rest =>
      obtain ⟨k, mode⟩ := entry
      have exec : s.exec = some k := inv.exec
      have apart : q ≠ k := by
        rintro rfl
        exact away exec
      have below : q ∈ rest.map Prod.fst := by
        by_contra absent
        rw [modeOf_absent (by simpa [apart] using absent)] at live
        cases live
      obtain ⟨j, -, upper, lower, upperFound, lowerFound, -, waits⟩ := link_above inv.nested below
      rw [found] at lowerFound
      cases lowerFound
      rw [point] at waits
      obtain ⟨base, above, -⟩ := waits
      refine ⟨by simp [exec], j, upper, upperFound, base, fun at_ yielded => ?_⟩
      -- the token of a coroutine that has blocked is spent
      have spent := (inv.sound j upper upperFound).spent at_ yielded
      rw [above] at spent
      cases spent

theorem start_returned (inv : Invariant s nest) (found : s.contexts q = some context)
    (point : context.point = .inStart t) (away : s.exec ≠ some q)
    {after : Nest} (inv' : Invariant s' after) (turn : Turn s s' nest after)
    (still : s'.contexts q = some context) (back : s'.exec = some q) : ¬Advances s' t := by
  have exec := inv.exec
  have exec' := inv'.exec
  rw [back] at exec'
  cases turn with
  | stays => exact absurd (exec.trans exec'.symm) away
  | pushes k mode _ place =>
      cases exec'
      rcases place context still with enters | ⟨at_, yields⟩
      · simp [point] at enters
      · simp [point] at yields
  | wakes k mode p place =>
      cases exec'
      obtain ⟨at_, yields⟩ := place context still
      simp [point] at yields
  | pops k mode rest kept left =>
      cases after with
      | nil => cases exec'
      | cons entry below =>
          obtain ⟨p, under⟩ := entry
          cases exec'
          obtain ⟨upper, lower, upperFound, lowerFound, -, waits⟩ := inv.nested.1
          rw [found] at lowerFound
          cases lowerFound
          rw [point] at waits
          obtain ⟨base, -⟩ := waits
          rintro ⟨l, other, there, sameBase, moves⟩
          by_cases same : l = k
          · subst same
            obtain ⟨at_, yields⟩ := left other there
            exact moves at_ yields
          · rw [kept l same] at there
            refine same (engaged_once inv there upperFound (base_mem other) ?_)
            rw [sameBase, ← base]
            exact base_mem upper

/-- In every regular run `start` returns when its task first blocks or finishes, and not
before. -/
theorem start_returns (along : Along step Regular {} labels)
    (run : replay step {} labels = some s) : StartReturns s := by
  obtain ⟨nest, inv⟩ := nested_along along run
  intro q context t found point away
  obtain ⟨busy, advances⟩ := start_advances inv found point away
  refine ⟨busy, advances, fun label s' regular taken => ?_⟩
  obtain ⟨after, inv', turn⟩ := step_kept inv regular taken
  have still := (step_leaves taken).contexts q context (fun same => away same.symm) found
  constructor
  · exact start_returned inv found point away inv' turn still
  · intro stopped
    by_contra elsewhere
    exact stopped (start_advances inv' still point elsewhere).2

def startInAwait : List Label :=
  [.construct .user (some 0), .construct .user (some 1), .construct .user none,
    .construct .event (some 3), .cocoflow 0, .tau, .start 1, .tau, .await 2, .tau, .start 3]

theorem start_returns_nested : ∃ s, replay step {} startInAwait = some s ∧
    (s.contexts 0).map Context.point = some (.inStart 1) ∧
    (s.contexts 1).map Context.point = some (.inStart 3) ∧ StartReturns s := by
  have reached : (replay step {} startInAwait).isSome := by decide +kernel
  have regular : Along step Regular {} startInAwait := by decide +kernel
  exact ⟨_, (Option.some_get reached).symm, by decide +kernel +revert, by decide +kernel +revert,
    start_returns regular (Option.some_get reached).symm⟩

/-- The same start, after which the awaited task awaits a sleep. `global_current_task` is the
outer task, so the sleep gets no token and blocks into the event loop. -/
def tokenLost : List Label :=
  [.construct .user (some 0), .construct .user (some 1), .construct .user none,
    .construct .event (some 3), .construct .event none, .cocoflow 0, .tau, .start 1, .tau,
    .await 2, .tau, .start 3, .block, .tau, .await 4, .block]

theorem start_stays_away : ¬∀ labels s, Along step Disciplined {} labels →
    replay step {} labels = some s → StartReturns s := by
  intro claimed
  have reached : (replay step {} tokenLost).isSome := by decide +kernel
  have loop : ((replay step {} tokenLost).get reached).exec = none := by decide +kernel +revert
  obtain ⟨busy, -⟩ := claimed tokenLost _ (by decide +kernel) (Option.some_get reached).symm
    0 ⟨0, [], .inStart 1, 0⟩ 1 (by decide +kernel +revert) rfl (by rw [loop]; simp)
  exact busy loop

end Start

def terminated : Status → Bool
  | .completed | .canceled | .childUnready => true
  | _ => false

/-- Where an `all_of` is about to return, its children have ended, and an `all_of` that is
suspended in its wait has a child that has not. -/
def AllOfWaits (s : State) : Prop :=
  ∀ k context children, s.contexts k = some context →
    (s.tasks context.inner).kind = .group .allOf children →
      (context.point = .goal → ∀ t ∈ children, terminated (s.tasks t).status = true ∧ Idle s t) ∧
      ∀ count, context.point = .yielded (.wait count) → s.exec ≠ some k →
        ∃ t ∈ children, terminated (s.tasks t).status = false

def Counted (s : State) (t : Nat) : Prop :=
  ∃ o < s.next, ∃ context ∈ (s.tasks o).uid.bind s.contexts,
    context.inner = o ∧ opened context.point = true ∧
      (s.tasks o).kind = .group .allOf (childrenOf (s.tasks o).kind) ∧
      t ∈ childrenOf (s.tasks o).kind

/-- A combinator that is itself a child of an `all_of` finds its own children ready. -/
def FindsReady (s : State) : Prop :=
  ∀ context ∈ running s, context.point = .enter → Counted s context.inner →
    ∀ t ∈ childrenOf (s.tasks context.inner).kind, (s.tasks t).status = .ready

def NoneUnready (s : State) : Prop :=
  ∀ k context children, s.contexts k = some context →
    (s.tasks context.inner).kind = .group .allOf children → opened context.point = true →
      ∀ t ∈ children, (s.tasks t).status ≠ .childUnready

section AllOf

variable {s s' : State} {nest : Nest} {label : Label} {labels : List Label}

instance (t : Nat) : Decidable (Counted s t) :=
  inferInstanceAs (Decidable (∃ o < s.next, ∃ context ∈ (s.tasks o).uid.bind s.contexts,
    context.inner = o ∧ opened context.point = true ∧
      (s.tasks o).kind = .group .allOf (childrenOf (s.tasks o).kind) ∧
      t ∈ childrenOf (s.tasks o).kind))

instance : Decidable (FindsReady s) :=
  inferInstanceAs (Decidable (∀ context ∈ running s, context.point = .enter →
    Counted s context.inner →
      ∀ t ∈ childrenOf (s.tasks context.inner).kind, (s.tasks t).status = .ready))

theorem counted_of (inv : Invariant s nest) {k : Nat} {context : Context} {children : List Nat}
    (found : s.contexts k = some context)
    (kind : (s.tasks context.inner).kind = .group .allOf children)
    (open_ : opened context.point = true) {t : Nat} (member : t ∈ children) : Counted s t := by
  obtain ⟨live, own⟩ := (inv.sound k context found).owned _ (inner_mem context)
  refine ⟨context.inner, inv.bounded _ live, context, by rw [own]; exact found, rfl, open_, ?_, ?_⟩
  · rw [kind]
    rfl
  · rw [kind]
    exact member

theorem counted_stays (inv : Invariant s nest) (ready : FindsReady s) (fit : NoneUnready s)
    (leaves : Leaves s.exec (Refuses s) s s') {k : Nat} {context : Context} {children : List Nat}
    (found : s.contexts k = some context)
    (kind : (s'.tasks context.inner).kind = .group .allOf children)
    (open_ : opened context.point = true) :
    ∀ t ∈ children, (s'.tasks t).status ≠ .childUnready := by
  have live := ((inv.sound k context found).owned _ (inner_mem context)).1
  rw [leaves.kind _ (inv.bounded _ live)] at kind
  intro t member unready
  rcases leaves.unready t unready with before | refuses
  · exact fit k context children found kind open_ t member before
  · obtain ⟨runs, shown, point, rfl, child, among, late⟩ := refuses
    exact late (ready runs shown point (counted_of inv found kind open_ member) child among)

theorem step_noneUnready (inv : Invariant s nest) (ready : FindsReady s)
    (taken : step s label = some s') (fit : NoneUnready s) : NoneUnready s' := by
  have leaves := step_leaves taken
  intro k next children there kind open_
  by_cases elsewhere : some k = s.exec
  · cases nest with
    | nil =>
        rw [inv.exec] at elsewhere
        cases elsewhere
    | cons entry rest =>
        obtain ⟨top, mode⟩ := entry
        rw [inv.exec] at elsewhere
        obtain rfl : k = top := Option.some.inj elsewhere
        obtain ⟨context, found⟩ := head_found inv.nested
        have sound := inv.sound k context found
        rcases step_opens inv found taken with opens | fresh
        · rcases opens next there open_ with ⟨inner, before⟩ | ⟨member, plain⟩
          · rw [inner] at kind
            exact counted_stays inv ready fit leaves found kind before
          · have live := (sound.owned _ member).1
            rw [leaves.kind _ (inv.bounded _ live)] at kind
            exact absurd kind (plain _ _)
        · obtain ⟨inner, all⟩ := fresh next there
          have live := (sound.owned _ (inner_mem context)).1
          rw [inner, leaves.kind _ (inv.bounded _ live)] at kind
          rw [kind] at all
          intro t member unready
          rcases leaves.unready t unready with before | refuses
          · rw [all t member] at before
            cases before
          · obtain ⟨runs, shown, -, rfl, child, among, late⟩ := refuses
            rw [running, inv.exec] at shown
            have same := Option.some.inj (found.symm.trans shown)
            rw [← same, kind] at among
            exact late (all child among)
  · cases before : s.contexts k with
    | none =>
        have enters := leaves.enters k next elsewhere before there
        rw [enters] at open_
        cases open_
    | some context =>
        have same := (leaves.contexts k context elsewhere before).symm.trans there
        cases same
        exact counted_stays inv ready fit leaves before kind open_

/-- In every regular run in which no child of an `all_of` ends child_unready, `all_of::run`
returns exactly when its children have ended. -/
theorem all_of_waits (along : Along step (fun s label => Regular s label ∧ FindsReady s) {} labels)
    (run : replay step {} labels = some s) : AllOfWaits s := by
  obtain ⟨⟨nest, inv⟩, fit⟩ := replay_invariant
    (fun state => (∃ nest, Invariant state nest) ∧ NoneUnready state)
    (fun state label next ⟨⟨nest, inv⟩, fit⟩ ⟨regular, ready⟩ taken => by
      obtain ⟨after, kept, -⟩ := step_kept inv regular taken
      exact ⟨⟨after, kept⟩, step_noneUnready inv ready taken fit⟩)
    ⟨⟨[], initial_invariant⟩, by intro k context children found; cases found⟩ along run
  intro k context children found kind
  have placed := (inv.sound k context found).placed
  refine ⟨fun goal => ?_, fun count waits suspended => ?_⟩
  · simp only [Placed, goal] at placed
    obtain ⟨-, which, others, same, family, -, result⟩ := placed
    rw [kind] at same
    cases same
    intro t member
    exact ⟨by rw [result t member]; rfl,
      closed_idle inv found family (by simp [goal, opened]) t member⟩
  · rw [suspended_parked inv found waits suspended] at placed
    simp only [Placed, waits] at placed
    obtain ⟨which, others, same, -, books, positive⟩ := placed
    rw [kind] at same
    cases same
    obtain ⟨exact_, uncanceled⟩ := books
    have left : unfinished s children ≠ 0 := exact_ ▸ positive rfl
    obtain ⟨t, member, open_⟩ := List.countP_pos_iff.mp (Nat.pos_of_ne_zero left)
    refine ⟨t, member, ?_⟩
    have fine := fit k context children found kind (by simp [waits, opened]) t member
    have going := uncanceled t member
    cases status : (s.tasks t).status <;> simp_all [terminated]

def innerAllOf : List Label :=
  [.construct .user (some 0), .construct .event (some 1), .construct .event (some 2),
    .construct (.group .allOf [2]) (some 3), .construct (.group .allOf [1, 3]) none,
    .cocoflow 0, .tau, .await 4, .tau, .tau, .block, .tau, .tau, .tau, .tau, .block,
    .tau, .tau, .tau, .tau, .tau, .tau, .event 1, .tau, .tau, .tau, .tau]

theorem all_of_waits_inner : ∃ s, replay step {} innerAllOf = some s ∧
    (s.contexts 0).map Context.point = some (.yielded (.wait 1)) ∧ s.exec ≠ some 0 ∧
      AllOfWaits s := by
  have reached : (replay step {} innerAllOf).isSome := by decide +kernel
  have regular : Along step (fun s label => Regular s label ∧ FindsReady s) {} innerAllOf := by
    decide +kernel
  exact ⟨_, (Option.some_get reached).symm, by decide +kernel +revert, by decide +kernel +revert,
    all_of_waits regular (Option.some_get reached).symm⟩

/-- `all_of(all_of(task), sleep)` where the task got no id. The inner `all_of` returns
child_unready at once, is not counted, and the outer one waits for it forever. -/
def unreadyChild : List Label :=
  [.construct .user (some 0), .construct .user none, .construct (.group .allOf [1]) (some 2),
    .construct .event (some 3), .construct (.group .allOf [2, 3]) none, .cocoflow 0, .tau,
    .await 4, .tau, .tau, .tau, .tau, .tau, .tau, .block, .tau, .tau, .tau, .event 3, .tau,
    .tau, .tau, .tau]

theorem all_of_hangs : ¬∀ labels s, Along step Disciplined {} labels →
    replay step {} labels = some s → AllOfWaits s := by
  intro claimed
  have reached : (replay step {} unreadyChild).isSome := by decide +kernel
  have ended : ∀ t ∈ [2, 3],
      terminated (((replay step {} unreadyChild).get reached).tasks t).status = true := by
    decide +kernel +revert
  have loop : ((replay step {} unreadyChild).get reached).exec ≠ some 0 := by
    decide +kernel +revert
  obtain ⟨-, suspended⟩ := claimed unreadyChild _ (by decide +kernel)
    (Option.some_get reached).symm 0 ⟨0, [⟨0, 4⟩], .yielded (.wait 1), 0⟩ [2, 3]
    (by decide +kernel +revert) (by decide +kernel +revert)
  obtain ⟨t, member, going⟩ := suspended 1 rfl loop
  rw [ended t member] at going
  cases going

end AllOf

/-- The signal is down in the event loop. While it is up, control is in the `__task_yield` of
the child for which `__task_cancel_children` has raised it, and the next step takes it
down. -/
def SignalDelivered (s : State) : Prop :=
  (s.exec = none → s.signal = false) ∧
  (s.signal = true → ∃ k context at_ q canceller i unsupport caller which children,
    s.exec = some k ∧ s.contexts k = some context ∧ context.point = .yielded at_ ∧
    s.contexts q = some canceller ∧ canceller.point = .canceling i unsupport caller ∧
    (s.tasks canceller.inner).kind = .group which children ∧ children[i]? = some context.base ∧
    ∀ label s', step s label = some s' → s'.signal = false)

section Signal

variable {s s' : State} {k : Nat} {context : Context} {labels : List Label}

theorem swapRunning_signal {source next : Option Nat}
    (taken : swapRunning s source next = some s') : s'.signal = s.signal := by
  unfold swapRunning at taken
  split at taken
  · cases taken
  · split at taken
    · cases taken
      rfl
    · split at taken
      · cases taken
        rfl
      · cases taken
      · split at taken
        · cases taken
          rfl
        · cases taken

theorem cancelReturn_signal {caller : CancelCaller}
    (taken : cancelReturn s k context caller = some s') : s'.signal = s.signal := by
  unfold cancelReturn at taken
  split at taken
  · cases taken
    rfl
  · cases taken
    rfl
  · split at taken
    · cases taken
    · cases taken
      rfl
  · unfold runtimeFinish at taken
    dsimp only at taken
    split at taken
    · have kept := swapRunning_signal taken
      exact kept
    · have kept := swapRunning_signal taken
      exact kept
  · cases taken

theorem cancelTask_signal {caller : CancelCaller}
    (taken : cancelTask s k context caller = some s') : s'.signal = s.signal := by
  unfold cancelTask at taken
  split at taken
  · exact cancelReturn_signal taken
  · have kept := cancelReturn_signal taken
    exact kept
  · cases taken
    rfl

theorem yieldReturn_consumes {at_ : YieldAt} (raised : s.signal = true)
    (taken : yieldReturn s k context at_ = some s') : s'.signal = false := by
  unfold yieldReturn at taken
  dsimp only at taken
  rw [if_pos raised] at taken
  split at taken
  · split at taken
    · cases taken
      rfl
    · cases taken
    · cases taken
    · cases taken
    · cases taken
      rfl
  · split at taken
    · have kept := cancelTask_signal taken
      exact kept
    · have kept := cancelTask_signal taken
      exact kept

/-- In every regular run the signal is consumed by the coroutine for which it was raised. -/
theorem signal_delivered (along : Along step Regular {} labels)
    (run : replay step {} labels = some s) : SignalDelivered s := by
  obtain ⟨nest, inv⟩ := nested_along along run
  refine ⟨fun loop => ?_, fun raised => ?_⟩
  · by_contra raised
    obtain ⟨k, context, rest, at_, rfl, -⟩ := inv.signal.mp (by simpa using raised)
    rw [inv.exec] at loop
    cases loop
  · obtain ⟨k, context, rest, at_, rfl, found, point⟩ := inv.signal.mp raised
    have exec : s.exec = some k := inv.exec
    cases rest with
    | nil => cases inv.nested.2
    | cons entry below =>
        obtain ⟨q, mode⟩ := entry
        obtain ⟨upper, canceller, upperFound, there, -, waits⟩ := inv.nested.1
        rw [found] at upperFound
        cases upperFound
        cases place : canceller.point <;> simp only [place] at waits
        case inStart => simp at waits
        case started => simp at waits
        case canceling i unsupport caller =>
          obtain ⟨-, -, which, children, kind, child⟩ := waits
          refine ⟨k, context, at_, q, canceller, i, unsupport, caller, which, children, exec, found,
            point, there, place, kind, child, fun label s' taken => ?_⟩
          -- at a yield only the library moves
          cases label <;> simp [step, exec, found, contextStep, point] at taken
          simp only [coroutineStep, point] at taken
          exact yieldReturn_consumes raised taken

/-- Right after `any_of` has raised the signal for its first child. -/
theorem signal_delivered_raised : ∃ s, replay step {} (firstOfTwo.take 21) = some s ∧
    s.signal = true ∧ SignalDelivered s := by
  have reached : (replay step {} (firstOfTwo.take 21)).isSome := by decide +kernel
  have regular : Along step Regular {} (firstOfTwo.take 21) := by decide +kernel
  exact ⟨_, (Option.some_get reached).symm, by decide +kernel +revert,
    signal_delivered regular (Option.some_get reached).symm⟩

/-- `any_of(any_of(sleep, all_of(sleep)), sleep)` where the sleep in `all_of` is
uninterruptable. The inner `any_of` waits inside its cancel loop when the outer one cancels
it, and so the signal outlives both. -/
def signalLeft : List Label :=
  [.construct .user (some 0), .construct .event (some 1), .construct .event (some 2),
    .uninterruptable 2, .construct (.group .allOf [2]) (some 3),
    .construct (.group .anyOf [1, 3]) (some 4), .construct .event (some 5),
    .construct (.group .anyOf [4, 5]) none, .construct .event none, .cocoflow 0, .tau, .await 6,
    .tau, .tau, .tau, .tau, .block, .tau, .tau, .tau, .tau, .block, .tau, .tau, .tau, .tau, .tau,
    .tau, .tau, .tau, .block, .tau, .tau, .tau, .event 1, .tau, .tau, .tau, .tau, .tau, .tau,
    .tau, .tau, .tau, .event 5] ++ List.replicate 13 .tau ++ [.await 7, .block]

theorem signal_undelivered : ¬∀ labels s, Along step Disciplined {} labels →
    replay step {} labels = some s → SignalDelivered s := by
  intro claimed
  have reached : (replay step {} signalLeft).isSome := by decide +kernel
  have loop : ((replay step {} signalLeft).get reached).exec = none := by decide +kernel +revert
  have up : ((replay step {} signalLeft).get reached).signal = true := by decide +kernel +revert
  have down := (claimed signalLeft _ (by decide +kernel) (Option.some_get reached).symm).1 loop
  rw [up] at down
  cases down

end Signal

def cancelCaller : Point → Option CancelCaller
  | .cancelLoop _ _ caller | .canceling _ _ caller | .cancelWait _ caller => some caller
  | .yielded (.cancelWait _ caller) => some caller
  | _ => none

/-- An uninterruptable task that has begun is not unwound, no `__task_yield` below it finds
the signal, and its `cancel()` is not running. -/
def LeftAlone (s : State) : Prop :=
  ∀ k context t, s.contexts k = some context → t ∈ context.chain →
    (s.tasks t).uninterruptable = true →
      context.point ≠ .throwing ∧ (s.exec = some k → s.signal = false) ∧
        (context.inner = t → ∀ caller ∈ cancelCaller context.point, caller = .anyRun)

section Protection

variable {s : State} {nest : Nest} {k : Nat} {context : Context} {labels : List Label}

theorem cancelling_unprotected (inv : Invariant s nest) (found : s.contexts k = some context)
    (mode : modeOf nest k = .cancelling) {t : Nat} (member : t ∈ context.chain) :
    (s.tasks t).uninterruptable = false := by
  have statuses := (inv.sound k context found).statuses
  rw [mode, Statuses, if_pos rfl] at statuses
  exact (statuses.2 t member).1

theorem canceller_cases (inv : Invariant s nest) (found : s.contexts k = some context)
    {caller : CancelCaller} (calls : caller ∈ cancelCaller context.point) :
    caller = .anyRun ∨ modeOf nest k = .cancelling := by
  have placed := (inv.sound k context found).placed
  have callers : ∀ which children, Placed.Calls s context (modeOf nest k) which children caller →
      caller = .anyRun ∨ modeOf nest k = .cancelling := by
    intro which children known
    cases caller with
    | anyRun => exact Or.inl rfl
    | yield => exact Or.inr known.1
    | await => exact Or.inr known.1
    | runtime => exact Or.inr known.1
    | cancelWait => cases known
  cases point : context.point with
  | cancelLoop i unsupport other =>
      simp only [Placed, point] at placed
      obtain ⟨which, children, -, -, -, -, known⟩ := placed
      rw [point] at calls
      cases calls
      exact callers which children known
  | canceling i unsupport other =>
      simp only [Placed, point] at placed
      obtain ⟨which, children, t, -, -, -, -, -, known⟩ := placed
      rw [point] at calls
      cases calls
      exact callers which children known
  | cancelWait unsupport other =>
      simp only [Placed, point] at placed
      rw [point] at calls
      cases calls
      exact Or.inl placed.1
  | yielded at_ =>
      rw [point] at calls
      cases at_ with
      | cancelWait unsupport other =>
          simp only [Placed, point] at placed
          cases calls
          exact Or.inl placed.1
      | _ => cases calls
  | _ =>
      rw [point] at calls
      cases calls

/-- In every regular run an uninterruptable task, once begun, is left alone. -/
theorem uninterruptable_left_alone (along : Along step Regular {} labels)
    (run : replay step {} labels = some s) : LeftAlone s := by
  obtain ⟨nest, inv⟩ := nested_along along run
  intro k context t found member protected_
  refine ⟨fun point => ?_, fun exec => ?_, fun inner caller calls => ?_⟩
  · have placed := (inv.sound k context found).placed
    simp only [Placed, point] at placed
    rw [placed.1 t member] at protected_
    cases protected_
  · by_contra raised
    obtain ⟨top, head, rest, at_, rfl, -⟩ := inv.signal.mp (by simpa using raised)
    rw [inv.exec] at exec
    cases exec
    rw [cancelling_unprotected inv found (modeOf_head _ _ _) member] at protected_
    cases protected_
  · refine (canceller_cases inv found calls).resolve_right fun mode => ?_
    rw [cancelling_unprotected inv found mode member] at protected_
    cases protected_

/-- `any_of(sleep, task)` where the task awaits an uninterruptable sleep; the first sleep has
ended and `any_of` waits for the second child. -/
def protectedWait : List Label :=
  [.construct .user (some 0), .construct .event (some 1), .construct .user (some 2),
    .construct .event none, .uninterruptable 3, .construct (.group .anyOf [1, 2]) none,
    .cocoflow 0, .tau, .await 4, .tau, .tau, .block, .tau, .tau, .tau, .await 3, .block,
    .tau, .tau, .tau, .event 1, .tau, .tau, .tau, .tau, .tau, .tau, .tau]

theorem uninterruptable_left_alone_awaited : ∃ s, replay step {} protectedWait = some s ∧
    (s.contexts 0).map Context.point = some (.yielded (.cancelWait 1 .anyRun)) ∧
      (s.contexts 2).map Context.inner = some 3 ∧ LeftAlone s := by
  have reached : (replay step {} protectedWait).isSome := by decide +kernel
  have regular : Along step Regular {} protectedWait := by decide +kernel
  exact ⟨_, (Option.some_get reached).symm, by decide +kernel +revert, by decide +kernel +revert,
    uninterruptable_left_alone regular (Option.some_get reached).symm⟩

/-- `any_of(sleep, task)` where the task awaits an uninterruptable one, which starts a sleep
and then awaits another. `reuse` of the outer task leads past the uninterruptable one. -/
def bypassed : List Label :=
  [.construct .user (some 0), .construct .event (some 1), .construct .user (some 2),
    .construct .user none, .uninterruptable 3, .construct .event (some 4), .construct .event none,
    .construct .event none, .construct (.group .anyOf [1, 2]) none, .cocoflow 0, .tau, .await 7,
    .tau, .tau, .block, .tau, .tau, .tau, .await 6, .block, .tau, .tau, .tau, .event 6, .tau,
    .tau, .await 3, .tau, .start 4, .block, .tau, .await 5, .block, .event 1, .tau, .tau, .tau,
    .tau, .tau, .tau]

theorem uninterruptable_unwound : ¬∀ labels s, Along step Disciplined {} labels →
    replay step {} labels = some s → LeftAlone s := by
  intro claimed
  have reached : (replay step {} bypassed).isSome := by decide +kernel
  obtain ⟨kept, -⟩ := claimed bypassed _ (by decide +kernel) (Option.some_get reached).symm
    2 ⟨2, [⟨2, 5⟩, ⟨2, 3⟩], .throwing, 2⟩ 3 (by decide +kernel +revert) (by decide)
    (by decide +kernel +revert)
  exact kept rfl

end Protection

end Cocoflow.SchedulerContracts
