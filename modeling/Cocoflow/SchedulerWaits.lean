import Mathlib.Logic.Relation
import Mathlib.Data.List.Basic
import Mathlib.Logic.Function.Basic
import Cocoflow.SchedulerProgress

/-!
No wakeup is lost. In the event loop every coroutine in use waits in a primitive that is
armed, or in a combinator for a child. The child was taken into use later, so the chain of
waits ends: at an armed primitive, or at a combinator of which a child has ended child_unready,
the one end that is never reported. When no primitive is armed and no child has ended so,
`uv_run` returns to a program of which no coroutine is left.
-/

namespace Cocoflow.SchedulerWaits

open LabelledRuns Scheduler SchedulerNest SchedulerLocal SchedulerSteps SchedulerCancel
open SchedulerCalls SchedulerObjects SchedulerSwitch SchedulerFinish SchedulerRuns SchedulerFrame
open SchedulerContracts SchedulerIds SchedulerUnwinding SchedulerWrites SchedulerProgress

/-- The statuses of a child from its start on, as long as its combinator does not cancel it. -/
def Begun (status : Status) : Prop :=
  status = .running ∨ status = .completed ∨ status = .childUnready

/-- How many of the children a combinator has started, while it has not begun to cancel them. -/
def launched (s : State) (context : Context) : Nat :=
  match context.point with
  | .starting i _ => i
  | .started i _ => i + 1
  | .waiting _ => if decided s context then 0 else width s context
  | .yielded (.wait _) => width s context
  | _ => 0

/-- Nobody who waits has been forgotten. -/
structure Attended (s : State) : Prop where
  armed : ∀ k context, s.contexts k = some context → context.point = .yielded .event →
    s.exec ≠ some k → s.armed context.inner = true
  begun : ∀ k context, s.contexts k = some context →
    ∀ t ∈ (childrenOf (s.tasks context.inner).kind).take (launched s context),
      Begun (s.tasks t).status
  protects : ∀ k context unsupport caller, s.contexts k = some context →
    context.point = .yielded (.cancelWait unsupport caller) → s.exec ≠ some k → unsupport ≠ 0
  parents : ∀ t < s.next, ∀ which, (s.tasks t).kind ≠ .group which []

section Statuses

variable {s s' : State} {label : Label} {nest : Nest}

theorem child_base (inv : Invariant s nest) {k l t : Nat} {context other : Context}
    {children : List Nat} (found : s.contexts k = some context)
    (family : Family s k context children) (member : t ∈ children)
    (place : s.contexts l = some other) (inside : t ∈ other.chain) :
    t = other.base ∧ (s.tasks other.base).finishTo = some k := by
  have finish := family.finish t member
  rcases chain_cases inside with target | rfl
  · have own := (inv.sound l other place).awaited t target
    rw [finish] at own
    cases own
    rw [found] at place
    cases place
    exact absurd inside (family.apart t member)
  · exact ⟨rfl, finish⟩

theorem uncanceled (inv : Invariant s nest) {k : Nat} {context : Context} {children : List Nat}
    (found : s.contexts k = some context) (family : Family s k context children)
    (calm : cancels context.point = false) {t : Nat} (member : t ∈ children) {runs : Context}
    (shown : runs ∈ running s) : ¬Cancels s runs t := by
  obtain ⟨q, mode, rest, rfl, there⟩ := running_head inv shown
  -- a coroutine is unwound on behalf of a combinator that cancels
  have unwinding : mode = .cancelling → (s.tasks runs.base).finishTo ≠ some k := by
    rintro rfl finish
    obtain ⟨p, -, -, lower, i, unsupport, caller, -, -, below, point, reports⟩ :=
      cancelling_below inv there
    rw [finish] at reports
    cases reports
    rw [found] at below
    cases below
    simp [point, cancels] at calm
  intro canceled
  cases canceled with
  | handled point =>
      obtain ⟨-, finish⟩ := child_base inv found family member there (inner_mem runs)
      have placed := placed_of inv there
      simp only [Placed, point] at placed
      rcases placed.2.2 with cancelling | ⟨-, -, p, parent, reports, above, inside⟩
      · exact unwinding cancelling finish
      · rw [finish] at reports
        cases reports
        rw [found] at above
        cases above
        rw [calm] at inside
        cases inside
  | signalled at_ point raised =>
      obtain ⟨-, finish⟩ := child_base inv found family member there (inner_mem runs)
      exact unwinding (signalled inv there raised).1 finish
  | child i unsupport _ caller point among runs_ =>
      have placed := placed_of inv there
      simp only [Placed, point] at placed
      obtain ⟨which, others, kind, -⟩ := placed
      rw [kind] at among
      obtain ⟨-, -, -, -, -, finish, -⟩ :=
        running_child inv there kind (by simp [point, cancels]) among runs_
      rw [family.finish t member] at finish
      cases finish
      rw [found] at there
      cases there
      simp [point, cancels] at calm
  | protector i unsupport child _ caller point among runs_ walk apart =>
      have placed := placed_of inv there
      simp only [Placed, point] at placed
      obtain ⟨which, others, kind, -⟩ := placed
      rw [kind] at among
      obtain ⟨l, other, place, rfl, -⟩ :=
        running_child inv there kind (by simp [point, cancels]) among runs_
      rcases protector_chain inv place with ⟨final, before, after, way, -, split, -⟩ | ⟨way, -⟩
      · rw [walk] at way
        cases way
        exact apart (child_base inv found family member place (by simp [split])).1
      · rw [walk] at way
        cases way

theorem launched_calm {context : Context} (some_ : 0 < launched s context) :
    opened context.point = true ∧ cancels context.point = false := by
  unfold launched at some_
  split at some_ <;> simp_all [opened, cancels]

theorem begun_kept (inv : Invariant s nest) (taken : step s label = some s') {k : Nat}
    {context : Context} (found : s.contexts k = some context) {t : Nat}
    (member : t ∈ (childrenOf (s.tasks context.inner).kind).take (launched s context))
    (begun : Begun (s.tasks t).status) : Begun (s'.tasks t).status := by
  have some_ : 0 < launched s context := by
    cases zero : launched s context with
    | zero => simp [zero] at member
    | succ n => exact Nat.succ_pos n
  obtain ⟨open_, calm⟩ := launched_calm some_
  have among := List.mem_of_mem_take member
  obtain ⟨which, children, kind⟩ : ∃ which children,
      (s.tasks context.inner).kind = .group which children := by
    cases kind : (s.tasks context.inner).kind with
    | group which children => exact ⟨which, children, rfl⟩
    | _ => simp [kind, childrenOf] at among
  rw [kind] at among
  have family := placed_family (inv.sound k context found).placed kind open_
  rcases step_status taken (inv.bounded t (family.live t among)) with same | becomes
  · rw [same]
    exact begun
  · cases status : (s'.tasks t).status with
    | running => exact .inl rfl
    | completed => exact .inr (.inl rfl)
    | childUnready => exact .inr (.inr rfl)
    | canceled =>
        rw [status] at becomes
        obtain ⟨runs, shown, canceled⟩ := becomes
        exact absurd canceled (uncanceled inv found family calm among shown)
    | ready =>
        rw [status] at becomes
        exact becomes.elim
    | limited =>
        rw [status] at becomes
        exact becomes.elim

end Statuses

section Places

variable {s s' : State} {k : Nat} {mode : Mode} {rest : Nest} {context : Context} {label : Label}

theorem objectStep_contexts (taken : objectStep s label = some s') : s'.contexts = s.contexts := by
  unfold objectStep at taken
  split at taken
  · cases taken
  · unfold construct at taken
    split at taken
    · cases taken
      rfl
    · split at taken <;> cases taken
      rfl
  · split at taken <;> cases taken
    rfl
  · split at taken <;> cases taken
    rfl
  · cases taken

theorem client_place (inv : Invariant s ((k, mode) :: rest)) (found : s.contexts k = some context)
    (client : label ≠ .tau) (taken : step s label = some s') {next : Context}
    (there : s'.contexts k = some next) :
    (next.point = .yielded .event ∧ next.inner = context.inner ∧
        s'.armed context.inner = true) ∨
      (∀ at_, next.point ≠ .yielded at_) ∧ launched s' next = 0 := by
  have exec : s.exec = some k := inv.exec
  rw [context_step inv found] at taken
  -- the points that a statement of the program can lead to
  have quiet (point : Point) (same : next.point = point)
      (calm : point = .user ∨ point = .enter ∨ point = .returning ∨ point = .throwing ∨
        ∃ target, point = .inStart target) :
      (∀ at_, next.point ≠ .yielded at_) ∧ launched s' next = 0 := by
    rcases calm with rfl | rfl | rfl | rfl | ⟨target, rfl⟩ <;> simp [same, launched]
  have stays (moved : s'.contexts = s.contexts) (calm : context.point = .user ∨
      context.point = .throwing) : (∀ at_, next.point ≠ .yielded at_) ∧ launched s' next = 0 := by
    rw [moved, found] at there
    cases there
    exact quiet _ rfl (by tauto)
  have keeps (taken : objectStep s label = some s') (calm : context.point = .user ∨
      context.point = .throwing) :=
    stays (objectStep_contexts taken) calm
  unfold contextStep at taken
  split at taken
  · exact absurd rfl client
  · rename_i point kind
    have placed := placed_of inv found
    simp only [Placed, point] at placed
    obtain ⟨token, rfl⟩ := placed.1
    rw [taskYield_yields inv found] at taken
    cases taken
    change Function.update s.contexts k _ k = some next at there
    rw [Function.update_self] at there
    cases there
    exact Or.inl ⟨rfl, rfl, Function.update_self ..⟩
  · rename_i point kind
    cases taken
    change Function.update s.contexts k _ k = some next at there
    rw [Function.update_self] at there
    cases there
    exact Or.inr (quiet _ rfl (by simp))
  · rename_i target point kind
    exact Or.inr (keeps taken (.inr point))
  · rename_i point kind
    refine Or.inr ?_
    unfold userStep at taken
    split at taken
    · unfold await at taken
      split at taken
      · cases taken
      · dsimp only at taken
        split at taken
        · cases taken
        · split at taken
          · cases taken
            exact stays rfl (.inl point)
          · cases taken
            change Function.update s.contexts k _ k = some next at there
            rw [Function.update_self] at there
            cases there
            exact quiet _ rfl (by simp)
    · unfold start at taken
      split at taken
      · cases taken
      · split at taken
        · cases taken
        · split at taken
          · cases taken
            exact stays rfl (.inl point)
          · -- the switch leaves the place of the caller alone
            have leaves : Leaves none (fun _ => True) _ s' := leaves_swapRunning taken
            have kept := leaves.contexts k _ (by simp) (Function.update_self ..)
            rw [kept] at there
            cases there
            exact quiet _ rfl (by simp)
    · cases taken
      change Function.update s.contexts k _ k = some next at there
      rw [Function.update_self] at there
      cases there
      exact quiet _ rfl (by simp)
    · exact keeps taken (.inl point)
  · cases taken

theorem edge_launched (inside : context.inner < s.next) (taken : step s .tau = some s')
    {point : Point} (edge : Edge (width s context) (decided s context = false) context.point point) :
    launched s' { context with point := point } ≤ launched s context := by
  have same : width s' { context with point := point } = width s context :=
    width_same (step_leaves taken) inside
  cases from_ : context.point <;> rw [from_] at edge <;> cases edge
  case starting.allStarted all =>
      simp only [launched, from_, same]
      split
      · exact Nat.zero_le _
      · exact all
  case started.onward => simp [launched, from_]
  case waiting.waits open_ => simp [launched, from_, same, open_]
  case yielded.counted =>
      simp only [launched, from_, same]
      split
      · exact Nat.zero_le _
      · exact Nat.le_refl _
  case cancelLoop.settles ends => rcases ends with rfl | rfl <;> simp [launched]
  all_goals simp [launched]

theorem edge_yields {n : Nat} {undecided : Prop} {point next : Point}
    (edge : Edge n undecided point next) :
    next ≠ .yielded .event ∧
      ∀ unsupport caller, next = .yielded (.cancelWait unsupport caller) → unsupport ≠ 0 := by
  cases edge with
  | settles i caller _ ends => rcases ends with rfl | rfl <;> simp
  | lingers unsupport caller positive => simpa using positive
  | _ => simp

theorem library_place (inv : Invariant s ((k, mode) :: rest)) (found : s.contexts k = some context)
    (begun : ∀ t ∈ (childrenOf (s.tasks context.inner).kind).take (launched s context),
      Begun (s.tasks t).status) (taken : step s .tau = some s') {next : Context}
    (there : s'.contexts k = some next) :
    (next.point ≠ .yielded .event ∧
      ∀ unsupport caller, next.point = .yielded (.cancelWait unsupport caller) → unsupport ≠ 0) ∧
    ∀ t ∈ (childrenOf (s'.tasks next.inner).kind).take (launched s' next),
      Begun (s'.tasks t).status := by
  have sound := inv.sound k context found
  have inside := inv.bounded _ (sound.owned _ (inner_mem context)).1
  have leaves := step_leaves taken
  have kept (t : Nat)
      (member : t ∈ (childrenOf (s.tasks context.inner).kind).take (launched s context)) :=
    begun_kept inv taken found member (begun t member)
  have advances := tau_inverse inv found taken
  cases advances with
  | moves point edge contexts =>
      rw [contexts, Function.update_self] at there
      cases there
      refine ⟨edge_yields edge, fun t member => kept t ?_⟩
      change t ∈ (childrenOf (s'.tasks context.inner).kind).take _ at member
      rw [leaves.kind _ inside] at member
      exact List.take_subset_take_left _ (edge_launched inside taken edge) member
  | starts i count child j point here _ _ _ free contexts running =>
      have apart : k ≠ j := by
        rintro rfl
        rw [found] at free
        cases free
      rw [contexts, Function.update_of_ne apart, Function.update_self] at there
      cases there
      refine ⟨by simp, fun t member => ?_⟩
      change t ∈ (childrenOf (s'.tasks context.inner).kind).take (i + 1) at member
      rw [leaves.kind _ inside] at member
      rw [List.take_add_one, here] at member
      rcases List.mem_append.mp member with before | new
      · exact kept t (by simpa [launched, point] using before)
      · obtain rfl : t = child := by simpa using new
        exact .inl running
  | picks i count bound point contexts chosen =>
      rw [contexts, Function.update_self] at there
      cases there
      refine ⟨by simp, fun t member => ?_⟩
      have none : launched s' { context with point := .waiting count } = 0 := if_pos chosen
      rw [none] at member
      simp at member
  | leaves frame outer awaits place point onward contexts =>
      rw [contexts, Function.update_self] at there
      cases there
      rcases onward with rfl | rfl <;> refine ⟨by simp, fun t member => ?_⟩ <;>
        simp [launched] at member
  | ends alone place contexts =>
      rw [contexts, Function.update_self] at there
      cases there

end Places

section Steps

variable {s s' : State} {nest : Nest} {label : Label}

theorem event_outside (inv : Invariant s nest) {t : Nat} (taken : step s (.event t) = some s') :
    s.exec = none := by
  cases nest with
  | nil => exact inv.exec
  | cons entry rest =>
      obtain ⟨q, mode⟩ := entry
      obtain ⟨other, place⟩ := head_found inv.nested
      rw [context_step inv place] at taken
      cases at_ : other.point <;> cases kind : (s.tasks other.inner).kind <;>
        simp [contextStep, at_, kind, userStep, objectStep] at taken

theorem event_resumes (inv : Invariant s nest) {k : Nat} {context : Context}
    (found : s.contexts k = some context) (loop : s.exec = none)
    (taken : step s (.event context.inner) = some s') : s'.exec = some k := by
  obtain ⟨-, uid⟩ := (inv.sound k context found).owned _ (inner_mem context)
  simp only [step, loop, loopStep] at taken
  split at taken
  · rw [uid, swapRunning_back (by rfl) fun q same => by
      cases same
      exact ⟨context, found⟩] at taken
    cases taken
    rfl
  · cases taken

theorem suspended_waits (inv : Invariant s nest) {k : Nat} {context : Context}
    (found : s.contexts k = some context) (apart : some k ≠ s.exec) {count : Nat} :
    context.point ≠ .waiting count := by
  intro point
  cases nest with
  | nil =>
      obtain ⟨at_, yields⟩ := placed_parked (inv.sound k context found).placed
      rw [point] at yields
      cases yields
  | cons entry rest =>
      obtain ⟨q, mode⟩ := entry
      obtain ⟨running, place⟩ := head_found inv.nested
      have different : k ≠ q := by
        rintro rfl
        exact apart inv.exec.symm
      rcases other_point inv place different found with ⟨waits, -⟩ | ⟨⟨at_, yields⟩, -⟩
      · rw [point] at waits
        exact waits
      · rw [point] at yields
        cases yields

/-- The step lemma of this module. -/
theorem step_attended (inv : Invariant s nest) (taken : step s label = some s')
    (attended : Attended s) : Attended s' := by
  have leaves := step_leaves taken
  -- a coroutine that does not run keeps its context
  have elsewhere {k : Nat} {next : Context} (there : s'.contexts k = some next)
      (apart : some k ≠ s.exec) : next.point = .enter ∨ s.contexts k = some next := by
    cases before : s.contexts k with
    | none => exact Or.inl (leaves.enters k next apart before there)
    | some context =>
        have same := (leaves.contexts k context apart before).symm.trans there
        exact Or.inr same
  -- what holds of the coroutine that runs
  have here {k : Nat} {next : Context} (there : s'.contexts k = some next)
      (runs : some k = s.exec) :
      (next.point = .yielded .event → s'.armed next.inner = true) ∧
      (∀ unsupport caller, next.point = .yielded (.cancelWait unsupport caller) →
        unsupport ≠ 0) ∧
      ∀ t ∈ (childrenOf (s'.tasks next.inner).kind).take (launched s' next),
        Begun (s'.tasks t).status := by
    obtain ⟨mode, rest, rfl⟩ : ∃ mode rest, nest = (k, mode) :: rest := by
      have exec := inv.exec
      rw [← runs] at exec
      cases nest with
      | nil => cases exec
      | cons entry rest =>
          obtain ⟨head, mode⟩ := entry
          cases exec
          exact ⟨mode, rest, rfl⟩
    obtain ⟨context, found⟩ := head_found inv.nested
    by_cases library : label = .tau
    · subst library
      obtain ⟨⟨event, protects⟩, begun⟩ :=
        library_place inv found (attended.begun k context found) taken there
      exact ⟨fun point => absurd point event, protects, begun⟩
    · rcases client_place inv found library taken there with ⟨point, inner, armed⟩ | ⟨quiet, none⟩
      · refine ⟨fun _ => inner ▸ armed, fun unsupport caller other => ?_, fun t member => ?_⟩
        · rw [point] at other
          cases other
        · simp [launched, point] at member
      · refine ⟨fun point => absurd point (quiet _), fun _ _ point => absurd point (quiet _),
          fun t member => ?_⟩
        rw [none] at member
        simp at member
  refine { armed := fun k next there point suspended => ?armed,
           begun := fun k next there => ?begun,
           protects := fun k next unsupport caller there point suspended => ?protects,
           parents := step_parents taken attended.parents }
  case armed =>
      by_cases runs : some k = s.exec
      · exact (here there runs).1 point
      · rcases elsewhere there runs with enter | found
        · rw [enter] at point
          cases point
        · have pending := attended.armed k next found point (Ne.symm runs)
          rcases step_armed taken next.inner with same | ⟨now, -⟩ | ⟨-, rfl | ⟨other, shown, same⟩⟩
          · rw [same]
            exact pending
          · exact now
          · -- its own callback would have resumed it
            exact absurd (event_resumes inv found (event_outside inv taken) taken) suspended
          · -- nor is it the running coroutine, which may cancel its own primitive
            obtain ⟨q, mode, rest, rfl, place⟩ := running_head inv shown
            have both := engaged_once inv found place (inner_mem next) (same ▸ inner_mem other)
            exact absurd (both ▸ inv.exec.symm) runs
  case begun =>
      by_cases runs : some k = s.exec
      · exact (here there runs).2.2
      · rcases elsewhere there runs with enter | found
        · intro t member
          simp [launched, enter] at member
        · have inside := inv.bounded _ ((inv.sound k next found).owned _ (inner_mem next)).1
          have same : launched s' next = launched s next := by
            unfold launched
            cases point : next.point with
            | waiting count => exact absurd point (suspended_waits inv found runs)
            | yielded at_ => cases at_ <;> simp [width_same leaves inside]
            | _ => rfl
          intro t member
          rw [same, leaves.kind _ inside] at member
          exact begun_kept inv taken found member (attended.begun k next found t member)
  case protects =>
      by_cases runs : some k = s.exec
      · exact (here there runs).2.1 unsupport caller point
      · rcases elsewhere there runs with enter | found
        · rw [enter] at point
          cases point
        · exact attended.protects k next unsupport caller found point (Ne.symm runs)

end Steps

/-- Coroutine `k` waits in a combinator for a child that runs on coroutine `l`. -/
def WaitsFor (s : State) (k l : Nat) : Prop :=
  ∃ context other, s.contexts k = some context ∧ (∃ at_, context.point = .yielded at_) ∧
    s.contexts l = some other ∧ other.base ∈ childrenOf (s.tasks context.inner).kind

def Pending (s : State) (l : Nat) : Prop :=
  ∃ context, s.contexts l = some context ∧ context.point = .yielded .event ∧
    s.armed context.inner = true ∧ s.live context.inner = true

/-- The coroutine waits for a child that has ended child_unready. -/
def Barren (s : State) (l : Nat) : Prop :=
  ∃ context count, s.contexts l = some context ∧ context.point = .yielded (.wait count) ∧
    ∃ t ∈ childrenOf (s.tasks context.inner).kind, (s.tasks t).status = .childUnready

section Waiting

variable {s : State} {labels : List Label}

theorem attended_along (along : Along step Regular {} labels)
    (run : replay step {} labels = some s) : (∃ nest, Invariant s nest) ∧ Attended s := by
  refine replay_invariant (fun state => (∃ nest, Invariant state nest) ∧ Attended state) ?_
    ⟨⟨[], initial_invariant⟩, by simp, by simp, by simp, by simp⟩ along run
  rintro state label next ⟨⟨nest, inv⟩, attended⟩ regular taken
  obtain ⟨after, kept, -⟩ := step_kept inv regular taken
  exact ⟨⟨after, kept⟩, step_attended inv taken attended⟩

theorem child_later (inv : Invariant s []) {k : Nat} {context : Context} {children : List Nat}
    (found : s.contexts k = some context) (family : Family s k context children) {t : Nat}
    (member : t ∈ children) (runs : (s.tasks t).status = .running) :
    ∃ l other, s.contexts l = some other ∧ other.base = t ∧ context.stamp < other.stamp := by
  obtain ⟨l, other, there, rfl, finish⟩ := child_context inv family found member runs
  obtain ⟨parent, -, -, same, -, -, earlier, -⟩ := (inv.sound l other there).adopted k finish
  rw [found] at same
  cases same
  exact ⟨l, other, there, rfl, earlier⟩

/-- In the event loop a coroutine waits in an armed primitive, or for a child that has ended
child_unready, or for a coroutine that was taken into use later. -/
theorem waits_on (inv : Invariant s []) (attended : Attended s) {k : Nat} {context : Context}
    (found : s.contexts k = some context) : Pending s k ∨ Barren s k ∨
      ∃ l other, WaitsFor s k l ∧ s.contexts l = some other ∧ context.stamp < other.stamp := by
  have sound := inv.sound k context found
  have loop : s.exec ≠ some k := by
    rw [inv.exec]
    simp
  obtain ⟨at_, point⟩ := placed_parked sound.placed
  have placed := sound.placed
  -- a child that has begun and has not ended runs on a later coroutine
  have waits {which : Combinator} {children : List Nat}
      (kind : (s.tasks context.inner).kind = .group which children)
      (family : Family s k context children) {t : Nat} (member : t ∈ children)
      (runs : (s.tasks t).status = .running) :
      ∃ l other, WaitsFor s k l ∧ s.contexts l = some other ∧ context.stamp < other.stamp := by
    obtain ⟨l, other, there, rfl, later⟩ := child_later inv found family member runs
    refine ⟨l, other, ⟨context, other, found, ⟨at_, point⟩, there, ?_⟩, there, later⟩
    rw [kind]
    exact member
  cases at_ with
  | event =>
      exact Or.inl ⟨context, found, point, attended.armed k context found point loop,
        (sound.owned _ (inner_mem context)).1⟩
  | wait count =>
      refine Or.inr ?_
      simp only [Placed, point, modeOf] at placed
      obtain ⟨which, children, kind, family, books, positive⟩ := placed
      -- one of the children has not completed
      obtain ⟨t, member, open_⟩ : ∃ t ∈ children, (s.tasks t).status ≠ .completed := by
        cases which with
        | allOf =>
            have left : unfinished s children ≠ 0 := books.1 ▸ positive rfl
            obtain ⟨t, member, open_⟩ := List.countP_pos_iff.mp (Nat.pos_of_ne_zero left)
            exact ⟨t, member, by simpa using open_⟩
        | anyOf =>
            cases children with
            | nil =>
                have allocated := inv.bounded _ (sound.owned _ (inner_mem context)).1
                exact absurd kind (attended.parents _ allocated _)
            | cons t others => exact ⟨t, by simp, books.1 t (by simp)⟩
      have begun : Begun (s.tasks t).status := by
        refine attended.begun k context found t ?_
        simp only [launched, point, width, kind, childrenOf, List.take_length]
        exact member
      rcases begun with runs | ended | unready
      · exact Or.inr (waits kind family member runs)
      · exact absurd ended open_
      · refine Or.inl ⟨context, count, found, point, t, ?_, unready⟩
        rw [kind]
        exact member
  | cancelWait unsupport caller =>
      refine Or.inr (Or.inr ?_)
      have left := attended.protects k context unsupport caller found point loop
      simp only [Placed, point, modeOf] at placed
      obtain ⟨-, -, -, children, kind, family, -, counted⟩ := placed
      have some_ : active s children ≠ 0 := by omega
      obtain ⟨t, member, runs⟩ := List.countP_pos_iff.mp (Nat.pos_of_ne_zero some_)
      exact waits kind family member (by simpa using runs)

theorem waits_chain (inv : Invariant s []) (attended : Attended s) {k : Nat} {context : Context}
    (found : s.contexts k = some context) :
    ∃ l, Relation.ReflTransGen (WaitsFor s) k l ∧ (Pending s l ∨ Barren s l) := by
  induction left : s.clock - context.stamp using Nat.strongRecOn generalizing k context with
  | _ left ih =>
      subst left
      rcases waits_on inv attended found with pending | barren | ⟨l, other, waits, there, later⟩
      · exact ⟨k, .refl, .inl pending⟩
      · exact ⟨k, .refl, .inr barren⟩
      · have bound := (inv.sound l other there).stamp
        obtain ⟨last, chain, ends⟩ := ih (s.clock - other.stamp) (by omega) there rfl
        exact ⟨last, .head waits chain, ends⟩

theorem waits_later (inv : Invariant s []) {k l : Nat} {context other : Context}
    (waits : WaitsFor s k l) (found : s.contexts k = some context)
    (there : s.contexts l = some other) : context.stamp < other.stamp := by
  obtain ⟨parked, child, place, ⟨at_, point⟩, place', member⟩ := waits
  cases found.symm.trans place
  cases there.symm.trans place'
  have placed := (inv.sound k context found).placed
  have adopted {which : Combinator} {children : List Nat}
      (kind : (s.tasks context.inner).kind = .group which children)
      (family : Family s k context children) : context.stamp < other.stamp := by
    rw [kind] at member
    obtain ⟨parent, -, -, same, -, -, earlier, -⟩ :=
      (inv.sound l other there).adopted k (family.finish _ member)
    cases found.symm.trans same
    exact earlier
  cases at_ with
  | event =>
      simp only [Placed, point] at placed
      rw [placed] at member
      cases member
  | wait count =>
      simp only [Placed, point, modeOf] at placed
      obtain ⟨which, children, kind, family, -⟩ := placed
      exact adopted kind family
  | cancelWait unsupport caller =>
      simp only [Placed, point, modeOf] at placed
      obtain ⟨-, -, -, children, kind, family, -⟩ := placed
      exact adopted kind family

theorem waits_ordered (inv : Invariant s []) {k l : Nat}
    (chain : Relation.TransGen (WaitsFor s) k l) :
    ∃ context other, s.contexts k = some context ∧ s.contexts l = some other ∧
      context.stamp < other.stamp := by
  induction chain with
  | single waits =>
      obtain ⟨context, other, found, -, there, -⟩ := id waits
      exact ⟨context, other, found, there, waits_later inv waits found there⟩
  | tail _ waits ih =>
      obtain ⟨context, middle, found, between, earlier⟩ := ih
      obtain ⟨-, other, -, -, there, -⟩ := id waits
      have later := waits_later inv waits between there
      exact ⟨context, other, found, there, by omega⟩

theorem waits_acyclic (inv : Invariant s []) (k : Nat) :
    ¬Relation.TransGen (WaitsFor s) k k := by
  intro cycle
  obtain ⟨context, other, found, there, later⟩ := waits_ordered inv cycle
  cases found.symm.trans there
  exact absurd later (Nat.lt_irrefl _)

/-- In every regular run, whenever control is in the event loop, the waits have no cycle, and
those of every coroutine in use lead to an armed primitive, or to a combinator with a child that
has ended child_unready. -/
theorem waits_end (along : Along step Regular {} labels) (run : replay step {} labels = some s)
    (loop : s.exec = none) :
    (∀ k, ¬Relation.TransGen (WaitsFor s) k k) ∧ ∀ k, s.contexts k ≠ none →
      ∃ l, Relation.ReflTransGen (WaitsFor s) k l ∧ (Pending s l ∨ Barren s l) := by
  obtain ⟨⟨nest, inv⟩, attended⟩ := attended_along along run
  obtain rfl := loop_nest inv loop
  refine ⟨waits_acyclic inv, fun k used => ?_⟩
  obtain ⟨context, found⟩ := Option.ne_none_iff_exists'.mp used
  exact waits_chain inv attended found

/-- In `all_of(sleep, all_of(sleep))` the waits of the top task end at a sleep. -/
theorem waits_end_inner : ∃ s, replay step {} innerAllOf = some s ∧
    (∀ k, ¬Relation.TransGen (WaitsFor s) k k) ∧
      ∃ l, Relation.ReflTransGen (WaitsFor s) 0 l ∧ (Pending s l ∨ Barren s l) := by
  have reached : (replay step {} innerAllOf).isSome := by decide +kernel
  have regular : Along step Regular {} innerAllOf := by decide +kernel
  have loop : ((replay step {} innerAllOf).get reached).exec = none := by decide +kernel +revert
  have used : (((replay step {} innerAllOf).get reached).contexts 0).isSome := by
    decide +kernel +revert
  obtain ⟨acyclic, ends⟩ := waits_end regular (Option.some_get reached).symm loop
  exact ⟨_, (Option.some_get reached).symm, acyclic, ends 0 (Option.isSome_iff_ne_none.mp used)⟩

end Waiting

end Cocoflow.SchedulerWaits
