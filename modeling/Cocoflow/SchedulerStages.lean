import Mathlib.Data.List.Basic
import Mathlib.Logic.Function.Basic
import Cocoflow.SchedulerLives

/-!
The turn of a blocking primitive. Before its first statement it is fresh. If it blocks it is
suspended, until its callback or its `cancel()` settles it. It is settled once, and the status
with which it ends says by which of the two.
-/

namespace Cocoflow.SchedulerStages

open LabelledRuns Scheduler SchedulerNest SchedulerLocal SchedulerSteps SchedulerCancel
open SchedulerCalls SchedulerObjects SchedulerSwitch SchedulerFinish SchedulerRuns SchedulerFrame
open SchedulerContracts SchedulerIds SchedulerUnwinding SchedulerWrites SchedulerProgress
open SchedulerWaits SchedulerLives

inductive Stage where
  | fresh | suspended | settled (canceled : Bool)
  deriving DecidableEq

/-- Control has not come to the first statement of `run`. -/
def Fresh (s : State) (t : Nat) : Prop :=
  Unbegun s t ∨ ∃ context ∈ running s, context.point = .enter ∧ context.inner = t

/-- The task runs, and another one awaits it. A status canceled then gives way to completed. -/
def Awaited (s : State) (t : Nat) : Prop :=
  ∃ context ∈ running s, context.inner = t ∧ context.awaits ≠ []

instance (s : State) (t : Nat) : Decidable (Fresh s t) :=
  inferInstanceAs (Decidable (Unbegun s t ∨ ∃ context ∈ running s, _))

instance (s : State) (t : Nat) : Decidable (Awaited s t) :=
  inferInstanceAs (Decidable (∃ context ∈ running s, _))

def stage (s : State) (t : Nat) : Stage :=
  if Fresh s t then .fresh
  else if s.armed t then .suspended
  else .settled (decide ((s.tasks t).status = .canceled ∧ ¬Awaited s t))

structure Poised (s : State) : Prop where
  signalled : ∀ context ∈ running s, context.point = .yielded .event → s.signal = true →
    s.armed context.inner = true
  thrown : ∀ context ∈ running s, context.point = .throwing →
    (s.tasks context.inner).kind = .event → s.armed context.inner = true

/-- What a step does with the turn of a primitive. -/
inductive Turn (s : State) (label : Label) (t : Nat) : Stage → Stage → Prop where
  | stays (stage : Stage) : Turn s label t stage stage
  | blocks (context : Context) (shown : context ∈ running s) (inner : context.inner = t)
      (why : label = .block) : Turn s label t .fresh .suspended
  | passes (context : Context) (shown : context ∈ running s) (inner : context.inner = t)
      (why : label = .skip) : Turn s label t .fresh (.settled false)
  | resumes (why : label = .event t) : Turn s label t .suspended (.settled false)
  | unwinds (context : Context) (shown : context ∈ running s) (inner : context.inner = t)
      (why : label = .tau) : Turn s label t .suspended (.settled true)

section Poise

variable {s s' : State} {nest after : Nest} {label : Label} {k t : Nat} {mode : Mode} {rest : Nest}
  {context next : Context}

theorem running_at (shown : context ∈ running s) :
    ∃ k, s.exec = some k ∧ s.contexts k = some context :=
  Option.bind_eq_some_iff.mp shown

theorem event_inner (inv : Invariant s nest) (found : s.contexts k = some context)
    (member : t ∈ context.chain) (event : (s.tasks t).kind = .event) : context.inner = t := by
  rw [chain_cons] at member
  rcases List.mem_cons.mp member with inner | outer
  · exact inner.symm
  · have user := ((inv.sound k context found).outer t outer).1
    rw [event] at user
    cases user

theorem event_parked (inv : Invariant s nest) (found : s.contexts k = some context)
    (apart : s.exec ≠ some k) (event : (s.tasks context.inner).kind = .event) :
    context.point = .yielded .event := by
  have parked (at_ : YieldAt) (point : context.point = .yielded at_) :
      context.point = .yielded .event := by
    have placed := (inv.sound k context found).placed
    cases at_ with
    | event => exact point
    | wait count =>
        simp only [Placed, point] at placed
        obtain ⟨which, children, kind, -⟩ := placed
        rw [event] at kind
        cases kind
    | cancelWait unsupport caller =>
        simp only [Placed, point] at placed
        obtain ⟨-, -, -, children, kind, -⟩ := placed
        rw [event] at kind
        cases kind
  cases nest with
  | nil =>
      obtain ⟨at_, point⟩ := placed_parked (inv.sound k context found).placed
      exact parked at_ point
  | cons entry rest =>
      obtain ⟨q, mode⟩ := entry
      obtain ⟨lower, there⟩ := head_found inv.nested
      have different : k ≠ q := by
        rintro rfl
        exact apart inv.exec
      rcases other_point inv there different found with ⟨waits, -⟩ | ⟨⟨at_, point⟩, -⟩
      · -- one that has switched to another coroutine has a group or a user task on top
        have placed := (inv.sound k context found).placed
        cases point : context.point <;> simp only [point, switched] at waits <;>
          simp [Placed, point, event] at placed
      · exact parked at_ point

theorem client_event (inv : Invariant s ((k, mode) :: rest)) (found : s.contexts k = some context)
    (event : (s.tasks context.inner).kind = .event) (client : label ≠ .tau)
    (taken : step s label = some s') : context.point = .enter ∧ ∃ token, mode = .live token ∧
      (label = .block ∧ s' = yields s k context .event token
        (Function.update s.armed context.inner true) ∨
      label = .skip ∧ s' = s.moveTo k context .returning) := by
  have placed := placed_of inv found
  rw [context_step inv found] at taken
  unfold contextStep at taken
  split at taken
  · exact absurd rfl client
  · rename_i point kind
    simp only [Placed, point] at placed
    obtain ⟨⟨token, rfl⟩, -⟩ := placed
    rw [taskYield_yields inv found] at taken
    cases taken
    exact ⟨point, token, rfl, Or.inl ⟨rfl, rfl⟩⟩
  · rename_i point kind
    simp only [Placed, point] at placed
    obtain ⟨⟨token, rfl⟩, -⟩ := placed
    cases taken
    exact ⟨point, token, rfl, Or.inr ⟨rfl, rfl⟩⟩
  · rename_i kind
    rw [event] at kind
    cases kind
  · rename_i kind
    rw [event] at kind
    cases kind
  · cases taken

inductive Moved (s : State) (k : Nat) (context : Context) (s' : State) : Prop where
  | happens (point : context.point = .yielded .event) (quiet : s.signal = false)
      (same : s' = s.moveTo k context .returning)
  | throws (point : context.point = .yielded .event) (raised : s.signal = true)
      (running : (s.tasks context.inner).status ≠ .canceled)
      (same : s' = ({ s with signal := false }.setStatus context.inner .canceled).moveTo k context
        .throwing)
  | cancels (point : context.point = .yielded .event) (raised : s.signal = true)
      (selected : (s.tasks context.inner).status = .canceled)
      (same : s' = ({ s with
        signal := false
        armed := Function.update s.armed context.inner false }).moveTo k context .returning)
  | unwinds (point : context.point = .throwing)
      (idle : Idle s' context.inner)
      (armed : s'.armed = Function.update s.armed context.inner false)
      (status : (s'.tasks context.inner).status = .canceled)
  | returns (point : context.point = .returning)
      (idle : Idle s' context.inner)
      (armed : s'.armed = s.armed)
      (status : (s'.tasks context.inner).status = .canceled ↔
        (s.tasks context.inner).status = .canceled ∧ context.awaits = [])

theorem left_idle (inv : Invariant s nest) (found : s.contexts k = some context)
    {middle : Option Context} (contexts : s'.contexts = Function.update s.contexts k middle)
    (apart : ∀ next ∈ middle, context.inner ∉ next.chain) : Idle s' context.inner := by
  intro l other there member
  rw [contexts] at there
  by_cases here : l = k
  · subst here
    rw [Function.update_self] at there
    exact apart other there member
  · rw [Function.update_of_ne here] at there
    exact here (engaged_once inv there found member (inner_mem context))

theorem popped_apart (inv : Invariant s nest) (found : s.contexts k = some context) {frame : Frame}
    {outer : List Frame} (awaits : context.awaits = frame :: outer) {point : Point} :
    context.inner ∉ ({ context with awaits := outer, point := point } : Context).chain := by
  have nodup := (inv.sound k context found).nodup
  unfold Context.chain at nodup ⊢
  unfold Context.inner
  rw [awaits] at nodup ⊢
  exact (List.nodup_cons.mp nodup).1

theorem finish_keeps (inv : Invariant s ((k, mode) :: rest)) (found : s.contexts k = some context)
    (alone : context.awaits = []) {settled : State} (contexts : settled.contexts = s.contexts)
    (exec : settled.exec = s.exec)
    (links : nextAfter (settled.tasks context.base) = nextAfter (s.tasks context.base))
    (taken : runtimeFinish settled k context = some s') :
    s'.tasks = settled.tasks ∧ s'.armed = settled.armed ∧
      s'.contexts = Function.update s.contexts k none := by
  have source : some k = settled.exec := exec.symm ▸ inv.exec.symm
  have used (q : Nat) (going : nextAfter (settled.tasks context.base) = some q) :
      ∃ lower, Function.update settled.contexts k none q = some lower := by
    rw [links] at going
    obtain ⟨apart, lower, there⟩ := next_used inv found alone going
    exact ⟨lower, by rw [Function.update_of_ne apart, contexts]; exact there⟩
  unfold runtimeFinish at taken
  dsimp only at taken
  change (if _ then swapRunning _ _ (nextAfter (settled.tasks context.base)) else
    swapRunning _ _ (nextAfter (settled.tasks context.base))) = some s' at taken
  rw [← contexts]
  split at taken
  · rw [swapRunning_back (by exact source) (by exact used)] at taken
    cases taken
    exact ⟨rfl, rfl, rfl⟩
  · rw [swapRunning_back (by exact source) (by exact used)] at taken
    cases taken
    exact ⟨rfl, rfl, rfl⟩

theorem event_returns (inv : Invariant s ((k, mode) :: rest)) (found : s.contexts k = some context)
    (point : context.point = .returning) (taken : runReturn s k context = some s') :
    Moved s k context s' := by
  unfold runReturn at taken
  cases awaits : context.awaits with
  | nil =>
      have inner : context.inner = context.base := by
        unfold Context.inner
        rw [awaits]
      simp only [awaits] at taken
      split at taken
      · rename_i runs
        obtain ⟨tasks, armed, contexts⟩ := finish_keeps inv found awaits (by rfl)
          (by rfl) (by simp [nextAfter, State.complete, State.setStatus]) taken
        refine .returns point (left_idle inv found contexts (by simp)) armed ?_
        rw [tasks, inner, runs]
        simp [State.complete, State.setStatus]
      · obtain ⟨tasks, armed, contexts⟩ := finish_keeps inv found awaits rfl rfl rfl taken
        refine .returns point (left_idle inv found contexts (by simp)) armed ?_
        rw [tasks]
        simp [awaits]
  | cons frame outer =>
      simp only [awaits] at taken
      cases taken
      have inner : context.inner = frame.target := by
        unfold Context.inner
        rw [awaits]
      obtain ⟨apart, -⟩ := caller_facts (inv.sound k context found) awaits
      have same := awaitReturn_spec s k context outer apart
      rw [same]
      refine .returns point (left_idle inv found (by rfl) ?_) rfl ?_
      · rintro next there
        cases there
        exact popped_apart inv found awaits
      · -- `__await` makes of a status canceled the status completed
        rw [inner]
        simp only [awaits, List.cons_ne_nil, and_false, iff_false]
        rw [Function.update_of_ne apart.symm, Function.update_self]
        dsimp only
        split
        · simp
        · rename_i neither
          exact fun canceled => neither (Or.inr canceled)

theorem event_thrown (inv : Invariant s ((k, mode) :: rest)) (found : s.contexts k = some context)
    (event : (s.tasks context.inner).kind = .event) (point : context.point = .throwing)
    (taken : runThrow s k context = some s') : Moved s k context s' := by
  unfold runThrow cancelTask at taken
  have kind : ((s.setStatus context.inner .canceled).tasks context.inner).kind = .event := by
    rw [State.setStatus, setTask_self]
    exact event
  simp only [kind] at taken
  cases awaits : context.awaits with
  | nil =>
      have inner : context.inner = context.base := by
        unfold Context.inner
        rw [awaits]
      simp only [awaits, if_true, cancelReturn] at taken
      obtain ⟨tasks, armed, contexts⟩ := finish_keeps inv found awaits (by rfl) (by rfl)
        (by simp [nextAfter, State.setStatus, ← inner]) taken
      refine .unwinds point (left_idle inv found contexts (by simp)) armed ?_
      rw [tasks]
      simp [State.setStatus]
  | cons frame outer =>
      simp only [awaits, cancelReturn, List.cons_ne_nil, if_false] at taken
      cases taken
      have inner : context.inner = frame.target := by
        unfold Context.inner
        rw [awaits]
      obtain ⟨apart, -⟩ := caller_facts (inv.sound k context found) awaits
      refine .unwinds point (left_idle inv found (by rfl) ?_) rfl ?_
      · rintro next there
        cases there
        exact popped_apart inv found awaits
      · rw [inner]
        simp [awaitRethrow, State.setStatus, State.setTask, State.setContext, apart.symm]

theorem event_moved (inv : Invariant s ((k, mode) :: rest)) (found : s.contexts k = some context)
    (event : (s.tasks context.inner).kind = .event) (taken : step s .tau = some s') :
    Moved s k context s' := by
  have placed := placed_of inv found
  rw [context_step inv found] at taken
  simp only [contextStep, coroutineStep, event] at taken
  cases point : context.point with
  | enter => simp [point] at taken
  | yielded at_ =>
      have blocked : at_ = .event := by
        cases at_ with
        | event => rfl
        | wait count => simp [Placed, point, event] at placed
        | cancelWait unsupport caller => simp [Placed, point, event] at placed
      subst blocked
      simp only [point] at taken
      unfold yieldReturn at taken
      dsimp only at taken
      split at taken
      · rename_i raised
        split at taken
        · rename_i running
          cases taken
          exact .throws point raised running rfl
        · rename_i selected
          unfold cancelTask at taken
          simp only [event] at taken
          cases taken
          exact .cancels point raised (not_not.mp selected) rfl
      · rename_i quiet
        cases taken
        exact .happens point (by simpa using quiet) rfl
  | returning =>
      simp only [point] at taken
      exact event_returns inv found point taken
  | throwing =>
      simp only [point] at taken
      exact event_thrown inv found event point taken
  | _ => simp [point, Placed, event] at placed taken

theorem enter_runs (inv : Invariant s nest) (found : s.contexts k = some context)
    (point : context.point = .enter) : s.exec = some k := by
  by_contra apart
  cases nest with
  | nil =>
      obtain ⟨at_, yields⟩ := placed_parked (inv.sound k context found).placed
      rw [point] at yields
      cases yields
  | cons entry rest =>
      obtain ⟨q, mode⟩ := entry
      obtain ⟨lower, there⟩ := head_found inv.nested
      have different : k ≠ q := by
        rintro rfl
        exact apart inv.exec
      rcases other_point inv there different found with ⟨waits, -⟩ | ⟨⟨at_, yields⟩, -⟩
      · rw [point] at waits
        exact waits
      · rw [point] at yields
        cases yields

theorem running_of (runs : s.exec = some k) (found : s.contexts k = some context) :
    context ∈ running s :=
  Option.bind_eq_some_iff.mpr ⟨k, runs, found⟩

theorem running_nest (inv : Invariant s nest) (runs : s.exec = some k) :
    ∃ mode rest, nest = (k, mode) :: rest := by
  have exec := inv.exec
  rw [runs] at exec
  cases nest with
  | nil => cases exec
  | cons entry rest =>
      obtain ⟨q, mode⟩ := entry
      cases exec
      exact ⟨mode, rest, rfl⟩

theorem left_before (taken : step s label = some s') (apart : s.exec ≠ some k)
    (there : s'.contexts k = some next) (point : next.point ≠ .enter) :
    s.contexts k = some next := by
  have leaves := step_leaves taken
  cases before : s.contexts k with
  | none => exact absurd (leaves.enters k next (Ne.symm apart) before there) point
  | some context => exact (leaves.contexts k context (Ne.symm apart) before).symm.trans there

theorem event_calm (inv : Invariant s nest) (taken : step s (.event t) = some s') :
    s'.signal ≠ true := by
  have loop := event_outside inv taken
  obtain rfl := loop_nest inv loop
  have same : s'.signal = s.signal := by
    simp only [step, loop, loopStep] at taken
    split at taken
    · have kept := swapRunning_signal taken
      exact kept
    · cases taken
  rw [same]
  intro raised
  obtain ⟨_, _, _, _, top, -⟩ := inv.signal.mp raised
  cases top

theorem step_signalled (inv : Invariant s nest) (attended : Attended s)
    (taken : step s label = some s') (shown : next ∈ running s')
    (point : next.point = .yielded .event) (raised : s'.signal = true) :
    s'.armed next.inner = true := by
  obtain ⟨k, runs, there⟩ := running_at shown
  by_cases here : s.exec = some k
  · obtain ⟨mode, rest, rfl⟩ := running_nest inv here
    obtain ⟨context, found⟩ := head_found inv.nested
    by_cases library : label = .tau
    · subst library
      have plain := (library_place inv found (attended.begun k context found) taken there).1.1
      exact absurd point plain
    · rcases client_place inv found library taken there with ⟨-, inner, armed⟩ | ⟨quiet, -⟩
      · rw [inner]
        exact armed
      · exact absurd point (quiet _)
  · have found := left_before taken here there (by simp [point])
    have pending := attended.armed k next found point here
    rcases step_armed taken next.inner with same | ⟨now, -⟩ | ⟨-, rfl | ⟨other, shown', same⟩⟩
    · rw [same]
      exact pending
    · exact now
    · exact absurd raised (event_calm inv taken)
    · obtain ⟨q, runs', place⟩ := running_at shown'
      have both := engaged_once inv found place (inner_mem next) (same ▸ inner_mem other)
      exact absurd (both ▸ runs') here

theorem step_thrown (inv : Invariant s nest) (poised : Poised s) (regular : Regular s label)
    (taken : step s label = some s') (shown : next ∈ running s') (point : next.point = .throwing)
    (event : (s'.tasks next.inner).kind = .event) : s'.armed next.inner = true := by
  have leaves := step_leaves taken
  obtain ⟨k, runs, there⟩ := running_at shown
  by_cases here : s.exec = some k
  · obtain ⟨mode, rest, rfl⟩ := running_nest inv here
    obtain ⟨context, found, inside⟩ : ∃ context, s.contexts k = some context ∧
        next.inner ∈ context.chain := by
      cases step_places inv regular taken there with
      | begins enter =>
          rw [point] at enter
          cases enter
      | stays context found _ chain => exact ⟨context, found, chain _ (inner_mem next)⟩
    have allocated := inv.bounded _ ((inv.sound k context found).owned _ inside).1
    have kind : (s.tasks next.inner).kind = .event := by
      rw [← leaves.kind _ allocated]
      exact event
    have inner := event_inner inv found inside kind
    rw [← inner] at kind
    -- of all that can be done with a primitive, only the exception leads here
    have moved (other : Point) (same : s'.contexts k = some { context with point := other })
        (apart : other ≠ .throwing) : False := by
      cases same.symm.trans there
      exact apart point
    by_cases library : label = .tau
    · subst library
      cases event_moved inv found kind taken with
      | happens _ _ same =>
          exact (moved .returning (by rw [same]; exact Function.update_self ..) (by simp)).elim
      | throws yielded raised _ same =>
          have pending := poised.signalled context (running_of here found) yielded raised
          rw [← inner, same]
          exact pending
      | cancels _ _ _ same =>
          exact (moved .returning (by rw [same]; exact Function.update_self ..) (by simp)).elim
      | unwinds _ idle => exact absurd (inner ▸ inner_mem next) (idle k next there)
      | returns _ idle => exact absurd (inner ▸ inner_mem next) (idle k next there)
    · obtain ⟨-, token, -, ⟨-, same⟩ | ⟨-, same⟩⟩ := client_event inv found kind library taken
      · exact (moved (.yielded .event) (by rw [same]; exact Function.update_self ..)
          (by simp)).elim
      · exact (moved .returning (by rw [same]; exact Function.update_self ..) (by simp)).elim
  · have before := left_before taken here there (by simp [point])
    have allocated := inv.bounded _ ((inv.sound k next before).owned _ (inner_mem next)).1
    have parked := event_parked inv before here ((leaves.kind _ allocated).symm.trans event)
    rw [point] at parked
    cases parked

/-- The step lemma of `Poised`. -/
theorem step_poised (inv : Invariant s nest) (attended : Attended s) (poised : Poised s)
    (regular : Regular s label) (taken : step s label = some s') : Poised s' where
  signalled _ shown point raised := step_signalled inv attended taken shown point raised
  thrown _ shown point event := step_thrown inv poised regular taken shown point event

end Poise

section Turns

variable {s s' : State} {nest after : Nest} {label : Label} {k t : Nat} {mode : Mode} {rest : Nest}
  {context next : Context}

theorem unbegun_idle (inv : Invariant s nest) (new : Unbegun s t) : Idle s t :=
  fun _ _ there member => seated_status inv there member new

theorem idle_awaited (inv : Invariant s nest) (idle : Idle s t) : ¬Awaited s t := by
  rintro ⟨context, shown, rfl, -⟩
  exact running_seated inv shown idle

theorem awaited_running (shown : context ∈ running s) :
    Awaited s context.inner ↔ context.awaits ≠ [] := by
  constructor
  · rintro ⟨other, same, -, awaits⟩
    cases shown.symm.trans same
    exact awaits
  · intro awaits
    exact ⟨context, shown, rfl, awaits⟩

theorem not_fresh (inv : Invariant s nest) (found : s.contexts k = some context)
    (member : t ∈ context.chain) (point : context.point ≠ .enter) : ¬Fresh s t := by
  rintro (new | ⟨other, shown, enter, rfl⟩)
  · exact seated_status inv found member new
  · obtain ⟨l, -, there⟩ := running_at shown
    cases engaged_once inv found there member (inner_mem other)
    cases found.symm.trans there
    exact point enter

theorem fresh_before (inv : Invariant s nest) (regular : Regular s label)
    (taken : step s label = some s') (allocated : t < s.next) (fresh : Fresh s' t) :
    Fresh s t := by
  rcases fresh with new | ⟨next, shown, point, rfl⟩
  · by_contra old
    exact step_begun taken allocated (fun new => old (Or.inl new)) new
  · obtain ⟨k, -, there⟩ := running_at shown
    cases step_places inv regular taken there with
    | begins _ unbegun => exact Or.inl unbegun
    | stays context found enters =>
        cases enters point
        exact Or.inr ⟨next, running_of (enter_runs inv found point) found, point, rfl⟩

theorem begins_fresh (inv : Invariant s nest) (later : Invariant s' after)
    (regular : Regular s label) (taken : step s label = some s') (new : Unbegun s t)
    (allocated : t < s.next) (alive : s'.live t = true) : Fresh s' t := by
  have idle := unbegun_idle inv new
  rcases step_status taken allocated with same | why
  · refine Or.inl ?_
    unfold Unbegun
    rw [same]
    exact new
  · -- every status but running is given to a task that stands on a stack
    cases status : (s'.tasks t).status with
    | ready => exact Or.inl (Or.inl status)
    | limited => exact Or.inl (Or.inr status)
    | running =>
        obtain ⟨k, next, there, member⟩ := later.running t alive status
        cases step_places inv regular taken there with
        | begins point unbegun outer =>
            rcases outer t member with rfl | seated
            · exact Or.inr ⟨next, running_of (enter_runs later there point) there, point, rfl⟩
            · exact absurd idle seated
        | stays context found _ chain => exact absurd (chain t member) (idle k context found)
    | completed =>
        rw [status] at why
        obtain ⟨⟨context, shown, -, rfl⟩, -⟩ := why
        exact absurd idle (running_seated inv shown)
    | childUnready =>
        rw [status] at why
        obtain ⟨context, shown, -, rfl, -⟩ := why
        exact absurd idle (running_seated inv shown)
    | canceled =>
        rw [status] at why
        obtain ⟨context, shown, canceled⟩ := why
        exact absurd idle (cancels_seated inv shown canceled)

theorem canceled_awaited (inv : Invariant s nest) (found : s.contexts k = some context)
    (awake : modeOf nest k ≠ .cancelling) (canceled : (s.tasks context.inner).status = .canceled) :
    context.awaits ≠ [] := by
  intro alone
  have sound := inv.sound k context found
  have statuses := sound.statuses
  unfold Statuses at statuses
  rw [if_neg awake] at statuses
  have inner : context.inner = context.base := by
    unfold Context.inner
    rw [alone]
  rcases statuses context.inner (inner_mem context) with runs | unready | flagged
  · rw [canceled] at runs
    cases runs
  · have status := unready.1
    rw [canceled] at status
    cases status
  · obtain ⟨inside, outer, split, more, -⟩ := flagged.outside
    exact outer_not_base sound.nodup split more inner

theorem stage_suspended (begun : ¬Fresh s t) (armed : s.armed t = true) :
    stage s t = .suspended := by
  rw [stage, if_neg begun, if_pos armed]

theorem stage_settled (begun : ¬Fresh s t) (armed : s.armed t = false) {canceled : Bool}
    (status : canceled = true ↔ (s.tasks t).status = .canceled ∧ ¬Awaited s t) :
    stage s t = .settled canceled := by
  rw [stage, if_neg begun, if_neg (by simp [armed]), Stage.settled.injEq]
  exact Bool.eq_iff_iff.mpr (by rw [decide_eq_true_iff]; exact status.symm)

theorem stage_armed (inv : Invariant s nest) : stage s t = .suspended ↔ s.armed t = true := by
  constructor
  · intro suspended
    unfold stage at suspended
    split at suspended
    · cases suspended
    · split at suspended
      · assumption
      · cases suspended
  · intro armed
    obtain ⟨-, k, context, found, rfl, place, -⟩ := inv.armed t armed
    refine stage_suspended (not_fresh inv found (inner_mem context) ?_) armed
    rcases place with point | point <;> simp [point]

theorem armed_alive (inv : Invariant s nest) (armed : s.armed t = true) : s.live t = true := by
  obtain ⟨-, k, context, found, rfl, -⟩ := inv.armed t armed
  exact ((inv.sound k context found).owned _ (inner_mem context)).1

theorem stage_blocks (inv : Invariant s nest) (later : Invariant s' after)
    (shown : context ∈ running s) (event : (s.tasks context.inner).kind = .event)
    (taken : step s .block = some s') :
    s'.live = s.live ∧ stage s' context.inner = .suspended := by
  obtain ⟨k, runs, found⟩ := running_at shown
  obtain ⟨mode, rest, rfl⟩ := running_nest inv runs
  obtain ⟨-, token, rfl, ⟨-, rfl⟩ | ⟨other, -⟩⟩ := client_event inv found event (by simp) taken
  swap
  · cases other
  have there : (yields s k context .event token
      (Function.update s.armed context.inner true)).contexts k =
        some { context with point := .yielded .event } := Function.update_self ..
  exact ⟨rfl, stage_suspended (not_fresh later there (inner_mem context) (by simp))
    (Function.update_self ..)⟩

theorem stage_skips (inv : Invariant s nest) (later : Invariant s' after)
    (shown : context ∈ running s) (event : (s.tasks context.inner).kind = .event)
    (taken : step s .skip = some s') :
    s'.live = s.live ∧ stage s' context.inner = .settled false := by
  obtain ⟨k, runs, found⟩ := running_at shown
  obtain ⟨mode, rest, rfl⟩ := running_nest inv runs
  obtain ⟨-, token, rfl, ⟨other, -⟩ | ⟨-, rfl⟩⟩ := client_event inv found event (by simp) taken
  · cases other
  have there : (s.moveTo k context .returning).contexts k =
      some { context with point := .returning } := Function.update_self ..
  have armed : s.armed context.inner = false := (calm_of inv found (Or.inl ⟨token, rfl⟩)).2
  refine ⟨rfl, stage_settled (not_fresh later there (inner_mem context) (by simp)) armed ?_⟩
  simp only [Bool.false_eq_true, false_iff, not_and, not_not]
  intro canceled
  have awaits := canceled_awaited inv found (by rw [modeOf_head]; simp) canceled
  exact ⟨_, running_of inv.exec there, rfl, awaits⟩

theorem turn_begins (inv : Invariant s nest) (later : Invariant s' after)
    (shown : context ∈ running s) (point : context.point = .enter)
    (event : (s.tasks context.inner).kind = .event) (taken : step s label = some s') :
    Turn s label context.inner .fresh (stage s' context.inner) := by
  obtain ⟨k, runs, found⟩ := running_at shown
  obtain ⟨mode, rest, rfl⟩ := running_nest inv runs
  by_cases library : label = .tau
  · subst library
    rw [context_step inv found] at taken
    simp [contextStep, coroutineStep, point, event] at taken
  · obtain ⟨-, -, -, ⟨rfl, -⟩ | ⟨rfl, -⟩⟩ := client_event inv found event library taken
    · rw [(stage_blocks inv later shown event taken).2]
      exact .blocks context shown rfl rfl
    · rw [(stage_skips inv later shown event taken).2]
      exact .passes context shown rfl rfl

theorem stage_resumes (inv : Invariant s nest) (later : Invariant s' after)
    (taken : step s (.event t) = some s') :
    s'.live = s.live ∧ s'.exec ≠ none ∧ stage s' t = .settled false := by
  have loop := event_outside inv taken
  obtain rfl := loop_nest inv loop
  simp only [step, loop, loopStep] at taken
  split at taken
  · rename_i pending
    obtain ⟨event, k, context, found, rfl, -⟩ := inv.armed t pending.1
    have point := event_parked inv found (by simp [loop]) event
    rw [((inv.sound k context found).owned _ (inner_mem context)).2,
      swapRunning_back (by rfl) fun q same => by
        cases same
        exact ⟨context, found⟩] at taken
    cases taken
    refine ⟨rfl, by simp, stage_settled (not_fresh later (by exact found) (inner_mem context)
      (by simp [point])) (Function.update_self ..) ?_⟩
    simp only [Bool.false_eq_true, false_iff, not_and, not_not]
    intro canceled
    exact ⟨context, running_of (by rfl) found, rfl,
      canceled_awaited inv found (by simp [modeOf]) canceled⟩
  · cases taken

theorem stage_constructs {uid : Option Nat}
    (taken : step s (.construct .event uid) = some s') :
    s'.live s.next = true ∧ (s'.tasks s.next).kind = .event ∧ stage s' s.next = .fresh := by
  have object : objectStep s (.construct .event uid) = some s' := by
    unfold step at taken
    split at taken
    · simp only [loopStep] at taken
      split at taken
      · exact taken
      · cases taken
    · split at taken
      · cases taken
      · rename_i k _ context _
        cases point : context.point <;> cases kind : (s.tasks context.inner).kind <;>
          simp only [contextStep, point, kind, userStep] at taken
        all_goals first | exact taken | cases taken
  simp only [objectStep] at object
  unfold construct at object
  split at object
  · cases object
    refine ⟨Function.update_self .., ?_, if_pos (Or.inl (Or.inr ?_))⟩ <;>
      simp [Function.update_self]
  · split at object
    · cases object
    · cases object
      refine ⟨Function.update_self .., ?_, if_pos (Or.inl (Or.inl ?_))⟩ <;>
        simp [Function.update_self]

/-- While a coroutine is unwound, a primitive that is marked canceled before its `cancel()` is alone
on the stack. -/
theorem selected_alone (inv : Invariant s ((k, .cancelling) :: rest))
    (found : s.contexts k = some context) (point : context.point = .yielded .event)
    (selected : (s.tasks context.inner).status = .canceled) : context.awaits = [] := by
  have statuses := (inv.sound k context found).statuses
  unfold Statuses at statuses
  rw [modeOf_head, if_pos rfl] at statuses
  have base : context.inner = context.base := by
    rcases (statuses.2 _ (inner_mem context)).2 with running | ⟨-, only⟩
    · rw [selected] at running
      cases running
    · exact only .event point
  cases awaits : context.awaits with
  | nil => rfl
  | cons frame outer =>
      refine absurd base (target_ne_base (inv.sound k context found).nodup ?_)
      simp [Context.inner, awaits]

theorem turn_ends (inv : Invariant s nest) (later : Invariant s' after)
    (taken : step s label = some s') (begun : ¬Fresh s' t) (armed : s.armed t = true) :
    Turn s label t .suspended (stage s' t) := by
  obtain ⟨event, k, context, found, rfl, place, unlive⟩ := inv.armed t armed
  by_cases runs : s.exec = some k
  · obtain ⟨mode, rest, rfl⟩ := running_nest inv runs
    rw [modeOf_head] at unlive
    -- its callback has not come, so the coroutine runs only to be unwound
    have cancelling : mode = .cancelling := (head_mode inv).resolve_left unlive
    subst cancelling
    have shown := running_of runs found
    by_cases library : label = .tau
    · subst library
      cases event_moved inv found event taken with
      | happens point quiet =>
          have raised := inv.signal.mpr ⟨k, context, rest, .event, rfl, found, point⟩
          rw [quiet] at raised
          cases raised
      | throws point raised status same =>
          rw [stage_suspended begun (by rw [same]; exact armed)]
          exact .stays _
      | cancels point raised selected same =>
          have alone := selected_alone inv found point selected
          have moved : ({ context with point := .returning } : Context) ∈ running s' := by
            refine running_of (k := k) ?_ ?_
            · rw [same]
              exact runs
            · rw [same]
              exact Function.update_self ..
          have ends : stage s' context.inner = .settled true := by
            refine stage_settled begun (by rw [same]; exact Function.update_self ..) ?_
            have status : (s'.tasks context.inner).status = .canceled := by
              rw [same]
              exact selected
            have free : ¬Awaited s' context.inner := fun awaited =>
              (awaited_running moved).mp awaited alone
            simp [status, free]
          rw [ends]
          exact .unwinds context shown rfl rfl
      | unwinds point idle disarmed status =>
          have ends : stage s' context.inner = .settled true :=
            stage_settled begun (by rw [disarmed, Function.update_self])
              (by simp [status, idle_awaited later idle])
          rw [ends]
          exact .unwinds context shown rfl rfl
      | returns point =>
          rcases place with yielded | throwing
          · rw [point] at yielded
            cases yielded
          · rw [point] at throwing
            cases throwing
    · obtain ⟨enter, -⟩ := client_event inv found event library taken
      rcases place with yielded | throwing
      · rw [enter] at yielded
        cases yielded
      · rw [enter] at throwing
        cases throwing
  · have point := event_parked inv found runs event
    have still (same : s'.armed context.inner = true) :
        Turn s label context.inner .suspended (stage s' context.inner) := by
      rw [stage_suspended begun same]
      exact .stays _
    rcases step_armed taken context.inner with same | ⟨now, -⟩ | ⟨off, rfl | ⟨other, shown, same⟩⟩
    · exact still (same.trans armed)
    · exact still now
    · rw [(stage_resumes inv later taken).2.2]
      exact .resumes rfl
    · obtain ⟨q, runs', place'⟩ := running_at shown
      have both := engaged_once inv found place' (inner_mem context) (same ▸ inner_mem other)
      exact absurd (both ▸ runs') runs

theorem turn_rests (inv : Invariant s nest) (later : Invariant s' after) (attended : Attended s)
    (poised : Poised s) (regular : Regular s label) (taken : step s label = some s')
    (allocated : t < s.next) (event : (s.tasks t).kind = .event) (begun : ¬Fresh s t)
    (past : ¬Fresh s' t) (armed : s.armed t = false) : stage s' t = stage s t := by
  -- only a primitive at its first statement blocks
  have entered (context : Context) (k : Nat) (found : s.contexts k = some context)
      (runs : s.exec = some k) (inner : t = context.inner) (client : label ≠ .tau) : False := by
    obtain ⟨mode, rest, rfl⟩ := running_nest inv runs
    obtain ⟨point, -⟩ := client_event inv found (inner ▸ event) client taken
    exact begun (Or.inr ⟨context, running_of runs found, point, inner.symm⟩)
  have off : s'.armed t = false := by
    rcases step_armed taken t with same | ⟨-, context, shown, inner, -, why⟩ | ⟨off, -⟩
    · rw [same]
      exact armed
    · obtain ⟨k, runs, found⟩ := running_at shown
      exact (entered context k found runs inner (by simp [why])).elim
    · exact off
  have same (verdict : ((s'.tasks t).status = .canceled ∧ ¬Awaited s' t) ↔
      ((s.tasks t).status = .canceled ∧ ¬Awaited s t)) : stage s' t = stage s t := by
    rw [stage_settled past off (decide_eq_true_iff), stage_settled begun armed (decide_eq_true_iff),
      decide_eq_decide.mpr verdict]
  by_cases idle : Idle s t
  · obtain ⟨ended, status⟩ := step_ended inv later regular taken
      ⟨allocated, idle, fun new => begun (Or.inl new)⟩
    apply same
    rw [status]
    simp [idle_awaited inv idle, idle_awaited later ended.idle]
  · obtain ⟨k, context, found, member⟩ : ∃ k context, s.contexts k = some context ∧
        t ∈ context.chain := by
      simpa [Idle] using idle
    obtain rfl := event_inner inv found member event
    by_cases runs : s.exec = some k
    · obtain ⟨mode, rest, rfl⟩ := running_nest inv runs
      have shown := running_of runs found
      by_cases library : label = .tau
      · subst library
        cases event_moved inv found event taken with
        | happens point quiet moved =>
            have going : ({ context with point := .returning } : Context) ∈ running s' := by
              rw [moved]
              exact running_of (k := k) runs (Function.update_self ..)
            have awaited : Awaited s' context.inner ↔ Awaited s context.inner :=
              (awaited_running going).trans (awaited_running shown).symm
            apply same
            rw [awaited, moved]
            rfl
        | throws point raised =>
            rw [poised.signalled context shown point raised] at armed
            cases armed
        | cancels point raised =>
            rw [poised.signalled context shown point raised] at armed
            cases armed
        | unwinds point =>
            rw [poised.thrown context shown point event] at armed
            cases armed
        | returns point left _ status =>
            apply same
            rw [status]
            simp [idle_awaited later left, awaited_running shown]
      · exact (entered context k found runs rfl library).elim
    · -- a coroutine left in a primitive has it armed
      have pending := attended.armed k context found (event_parked inv found runs event) runs
      rw [armed] at pending
      cases pending

/-- The step lemma of this module. -/
theorem step_turn (inv : Invariant s nest) (later : Invariant s' after) (attended : Attended s)
    (poised : Poised s) (regular : Regular s label) (taken : step s label = some s')
    (allocated : t < s.next) (event : (s.tasks t).kind = .event) (alive : s'.live t = true) :
    Turn s label t (stage s t) (stage s' t) := by
  by_cases fresh : Fresh s t
  · have first : stage s t = .fresh := if_pos fresh
    rw [first]
    by_cases new : Unbegun s t
    · have still : stage s' t = .fresh :=
        if_pos (begins_fresh inv later regular taken new allocated alive)
      rw [still]
      exact .stays _
    · obtain ⟨context, shown, point, rfl⟩ := fresh.resolve_left new
      exact turn_begins inv later shown point event taken
  · have past : ¬Fresh s' t := fun again =>
      fresh (fresh_before inv regular taken allocated again)
    cases armed : s.armed t with
    | true =>
        rw [stage_suspended fresh armed]
        exact turn_ends inv later taken past armed
    | false =>
        rw [turn_rests inv later attended poised regular taken allocated event fresh past armed]
        exact .stays _

end Turns

section Runs

variable {s : State} {labels : List Label}

theorem poised_along (along : Along step Regular {} labels) (run : replay step {} labels = some s) :
    (∃ nest, Invariant s nest) ∧ Attended s ∧ Poised s := by
  refine replay_invariant (fun state => (∃ nest, Invariant state nest) ∧ Attended state ∧
    Poised state) ?_ ⟨⟨[], initial_invariant⟩, ⟨by simp, by simp, by simp, by simp⟩,
      ⟨by simp [running], by simp [running]⟩⟩ along run
  rintro state label next ⟨⟨nest, inv⟩, attended, poised⟩ regular taken
  obtain ⟨after, kept, -⟩ := step_kept inv regular taken
  exact ⟨⟨after, kept⟩, step_attended inv taken attended,
    step_poised inv attended poised regular taken⟩

end Runs

end Cocoflow.SchedulerStages
