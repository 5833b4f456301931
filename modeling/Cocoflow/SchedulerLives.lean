import Mathlib.Data.List.Basic
import Mathlib.Data.List.Nodup
import Mathlib.Logic.Function.Basic
import Cocoflow.SchedulerWaits

/-!
The life of a task. It is new until its `run` begins, then it stands on one stack, and when it
has left that stack it has ended: it never runs again, and its status is final. A task completes
at most once. The order of completions only grows.
-/

namespace Cocoflow.SchedulerLives

open LabelledRuns Scheduler SchedulerNest SchedulerLocal SchedulerSteps SchedulerCancel
open SchedulerSwitch SchedulerRuns SchedulerFrame SchedulerIds SchedulerWrites SchedulerProgress SchedulerWaits

/-- The `run` of the task has not begun. -/
def Unbegun (s : State) (t : Nat) : Prop :=
  (s.tasks t).status = .ready ∨ (s.tasks t).status = .limited

/-- The task has left its stack. -/
structure Ended (s : State) (t : Nat) : Prop where
  allocated : t < s.next
  idle : Idle s t
  begun : ¬Unbegun s t

section Stacks

variable {s s' : State} {nest : Nest} {label : Label} {k t : Nat} {mode : Mode} {rest : Nest}
  {context next : Context}

theorem ready_spawns (inv : Invariant s nest) {target : Nat} (live : s.live target = true)
    (ready : (s.tasks target).status = .ready) {x : State} {source : Option Nat}
    (contexts : ∀ j, s.contexts j = none → x.contexts j = none) (manager : x.manager = s.manager)
    (alive : x.live = s.live) (running : source = x.exec)
    (taken : swapRunning x source (s.tasks target).uid = some s') :
    ∃ j, s' = spawns x target j := by
  obtain ⟨j, uid, managed, free⟩ := inv.fresh target live ready
  rw [uid, swapRunning_spawns running (contexts j free) (by rw [manager, managed])
    (by rw [alive, live])] at taken
  cases taken
  exact ⟨j, rfl⟩

/-- Where a coroutine is behind a step: at the first statement of a task whose run begins, or
on what is left of its stack. -/
inductive Place (s : State) (k : Nat) (next : Context) : Prop where
  | begins (point : next.point = .enter) (unbegun : Unbegun s next.inner)
      (outer : ∀ t ∈ next.chain, t = next.inner ∨ ¬Idle s t)
  | stays (context : Context) (found : s.contexts k = some context)
      (enters : next.point = .enter → next = context) (chain : ∀ t ∈ next.chain, t ∈ context.chain)

theorem place_same (there : s.contexts k = some next) : Place s k next :=
  .stays next there (fun _ => rfl) fun _ member => member

theorem place_moved (found : s.contexts k = some context) {point : Point}
    (apart : point ≠ .enter) : Place s k { context with point := point } :=
  .stays context found (fun enter => absurd enter apart) fun _ member => member

theorem place_spawned {child : Nat} {stamp : Nat} (ready : (s.tasks child).status = .ready) :
    Place s k { base := child, awaits := [], point := .enter, stamp := stamp } :=
  .begins rfl (Or.inl ready) fun t member => Or.inl (by
    simpa [Context.chain, Context.inner] using member)

theorem edge_enters {n : Nat} {undecided : Prop} {point next : Point}
    (edge : Edge n undecided point next) : next ≠ .enter := by
  cases edge with
  | settles i caller _ ends => rcases ends with rfl | rfl <;> simp
  | _ => simp

theorem library_places (inv : Invariant s ((k, mode) :: rest)) (found : s.contexts k = some context)
    (taken : step s .tau = some s') {l : Nat} (there : s'.contexts l = some next) :
    Place s l next := by
  have elsewhere {middle : Option Context} (contexts : s'.contexts l =
      Function.update s.contexts k middle l) (apart : l ≠ k) : Place s l next := by
    rw [there, Function.update_of_ne apart] at contexts
    exact place_same contexts.symm
  cases tau_inverse inv found taken with
  | moves point edge contexts =>
      by_cases here : l = k
      · subst here
        rw [contexts, Function.update_self] at there
        cases there
        exact place_moved found (edge_enters edge)
      · exact elsewhere (congrFun contexts l) here
  | starts i count child j point here live ready uid free contexts running =>
      rw [contexts] at there
      by_cases new : l = j
      · subst new
        rw [Function.update_self] at there
        cases there
        exact place_spawned ready
      · rw [Function.update_of_ne new] at there
        by_cases own : l = k
        · subst own
          rw [Function.update_self] at there
          cases there
          exact place_moved found (by simp)
        · rw [Function.update_of_ne own] at there
          exact place_same there
  | picks i count inside point contexts chosen =>
      by_cases here : l = k
      · subst here
        rw [contexts, Function.update_self] at there
        cases there
        exact place_moved found (by simp)
      · exact elsewhere (congrFun contexts l) here
  | leaves frame outer awaits place point onward contexts =>
      by_cases here : l = k
      · subst here
        rw [contexts, Function.update_self] at there
        cases there
        refine .stays context found (fun enter => ?_) fun t member => ?_
        · rcases onward with rfl | rfl <;> cases enter
        · unfold Context.chain at member ⊢
          rw [awaits]
          exact List.mem_cons_of_mem _ member
      · exact elsewhere (congrFun contexts l) here
  | ends alone place contexts =>
      by_cases here : l = k
      · subst here
        rw [contexts, Function.update_self] at there
        cases there
      · exact elsewhere (congrFun contexts l) here

theorem await_places {target : Nat} (found : s.contexts k = some context)
    (taken : await s k context target = some s') {l : Nat} (there : s'.contexts l = some next) :
    Place s l next := by
  unfold await at taken
  split at taken
  · cases taken
  · dsimp only at taken
    split at taken
    · cases taken
    · split at taken
      · cases taken
        exact place_same there
      · rename_i unstarted
        cases taken
        change Function.update s.contexts k _ l = some next at there
        by_cases here : l = k
        · subst here
          rw [Function.update_self] at there
          cases there
          refine .begins rfl (by unfold Unbegun Context.inner; tauto) fun t member => ?_
          simp only [Context.chain, List.map_cons, List.cons_append, List.mem_cons] at member
          exact member.imp_right fun old idle => idle l context found old
        · rw [Function.update_of_ne here] at there
          exact place_same there

theorem start_places (inv : Invariant s ((k, mode) :: rest)) (found : s.contexts k = some context)
    {target : Nat} (taken : start s k context target = some s') {l : Nat}
    (there : s'.contexts l = some next) : Place s l next := by
  unfold start at taken
  split at taken
  · cases taken
  · rename_i dead
    split at taken
    · cases taken
    · rename_i parent current
      split at taken
      · cases taken
        exact place_same there
      · rename_i ready
        have status : (s.tasks target).status = .ready := not_not.mp ready
        obtain ⟨here, member, shown⟩ := inv.current k context inv.exec found
        rw [current] at shown
        cases shown
        rw [((inv.sound k context found).owned _ member).2] at taken
        have kept (j : Nat) (free : s.contexts j = none) :
            ((s.setTask target fun task => { task with blockTo := some k, finishTo := none }).moveTo
              k context (.inStart target)).contexts j = none := by
          have apart : j ≠ k := by
            rintro rfl
            rw [found] at free
            cases free
          exact (Function.update_of_ne apart _ _).trans free
        obtain ⟨j, rfl⟩ := ready_spawns inv (eq_true_of_ne_false dead) status kept rfl rfl
          inv.exec.symm taken
        change Function.update (Function.update s.contexts k _) j _ l = some next at there
        by_cases new : l = j
        · subst new
          rw [Function.update_self] at there
          cases there
          exact place_spawned status
        · rw [Function.update_of_ne new] at there
          by_cases own : l = k
          · subst own
            rw [Function.update_self] at there
            cases there
            exact place_moved found (by simp)
          · rw [Function.update_of_ne own] at there
            exact place_same there

theorem moved_places (found : s.contexts k = some context) {point : Point} (apart : point ≠ .enter)
    {l : Nat} (there : Function.update s.contexts k (some { context with point := point }) l =
      some next) : Place s l next := by
  by_cases here : l = k
  · subst here
    rw [Function.update_self] at there
    cases there
    exact place_moved found apart
  · rw [Function.update_of_ne here] at there
    exact place_same there

theorem step_places (inv : Invariant s nest) (regular : Regular s label)
    (taken : step s label = some s') (there : s'.contexts k = some next) : Place s k next := by
  have exec := inv.exec
  cases nest with
  | nil =>
      change s.exec = none at exec
      simp only [step, exec, loopStep] at taken
      split at taken
      · rename_i target
        split at taken
        · rename_i pending
          obtain ⟨-, q, context, found, rfl, -⟩ := inv.armed target pending.1
          rw [((inv.sound q context found).owned _ (inner_mem context)).2,
            swapRunning_back (by rfl) fun p same => by
              cases same
              exact ⟨context, found⟩] at taken
          cases taken
          exact place_same there
        · cases taken
      · rename_i target
        split at taken
        · rename_i free
          have ready : (s.tasks target).status = .ready := regular.1.1
          obtain ⟨j, rfl⟩ := ready_spawns inv free.2 ready (by exact fun _ none_ => none_)
            (by rfl) (by rfl) (by exact exec.symm) taken
          change Function.update s.contexts j _ k = some next at there
          by_cases new : k = j
          · subst new
            rw [Function.update_self] at there
            cases there
            exact place_spawned ready
          · rw [Function.update_of_ne new] at there
            exact place_same there
        · cases taken
      · split at taken
        · rw [objectStep_contexts taken] at there
          exact place_same there
        · cases taken
  | cons entry rest =>
      obtain ⟨q, mode⟩ := entry
      obtain ⟨context, found⟩ := SchedulerContracts.head_found inv.nested
      by_cases library : label = .tau
      · subst library
        exact library_places inv found taken there
      · rw [context_step inv found] at taken
        unfold contextStep at taken
        split at taken
        · exact absurd rfl library
        · rename_i point kind
          have placed := placed_of inv found
          simp only [Placed, point] at placed
          obtain ⟨token, rfl⟩ := placed.1
          rw [taskYield_yields inv found] at taken
          cases taken
          exact moved_places found (by simp) there
        · cases taken
          exact moved_places found (by simp) there
        · rw [objectStep_contexts taken] at there
          exact place_same there
        · unfold userStep at taken
          split at taken
          · exact await_places found taken there
          · exact start_places inv found taken there
          · cases taken
            exact moved_places found (by simp) there
          · rw [objectStep_contexts taken] at there
            exact place_same there
        · cases taken

theorem step_seats (inv : Invariant s nest) (regular : Regular s label)
    (taken : step s label = some s') (idle : Idle s t) (begun : ¬Unbegun s t) : Idle s' t := by
  intro l other there member
  cases step_places inv regular taken there with
  | begins _ unbegun outer =>
      rcases outer t member with rfl | seated
      · exact begun unbegun
      · exact seated idle
  | stays context found _ chain => exact idle l context found (chain t member)

end Stacks

section Endings

variable {s s' : State} {nest : Nest} {label : Label} {k t : Nat}

theorem seated_status (inv : Invariant s nest) {context : Context}
    (found : s.contexts k = some context) (member : t ∈ context.chain) : ¬Unbegun s t := by
  obtain ⟨ready, limited⟩ := engaged_status inv found member
  rintro (new | new)
  · exact ready new
  · exact limited new

theorem step_begun (taken : step s label = some s') (allocated : t < s.next)
    (begun : ¬Unbegun s t) : ¬Unbegun s' t := by
  rcases step_status taken allocated with same | why
  · unfold Unbegun
    rw [same]
    exact begun
  · rintro (new | new)
    · rw [new] at why
      exact why
    · rw [new] at why
      exact why

theorem running_seated (inv : Invariant s nest) {context : Context} (shown : context ∈ running s) :
    ¬Idle s context.inner := by
  obtain ⟨k, mode, rest, rfl, found⟩ := running_head inv shown
  exact fun idle => idle k context found (inner_mem context)

theorem cancels_seated (inv : Invariant s nest) {context : Context} (shown : context ∈ running s)
    (cancels_ : Cancels s context t) : ¬Idle s t := by
  obtain ⟨k, mode, rest, rfl, found⟩ := running_head inv shown
  have placed := placed_of inv found
  intro idle
  cases cancels_ with
  | handled => exact idle k context found (inner_mem context)
  | signalled => exact idle k context found (inner_mem context)
  | child i unsupport _ caller point member runs =>
      simp only [Placed, point] at placed
      obtain ⟨which, children, kind, -⟩ := placed
      rw [kind] at member
      obtain ⟨l, other, there, rfl, -⟩ :=
        running_child inv found kind (by simp [point, cancels]) member runs
      exact idle l other there (base_mem other)
  | protector i unsupport child _ caller point member runs walk apart =>
      simp only [Placed, point] at placed
      obtain ⟨which, children, kind, -⟩ := placed
      rw [kind] at member
      obtain ⟨l, other, there, rfl, -⟩ :=
        running_child inv found kind (by simp [point, cancels]) member runs
      rcases protector_chain inv there with ⟨final, before, after, way, -, split, -⟩ | ⟨way, -⟩
      · rw [walk] at way
        cases way
        exact idle l other there (by simp [split])
      · rw [walk] at way
        cases way

theorem construct_alive {kind : Kind} {uid : Option Nat} (taken : construct s kind uid = some s')
    (alive : s.live t = true) : s'.live t = true := by
  have grows : Function.update s.live s.next true t = true := by
    by_cases new : t = s.next
    · rw [new, Function.update_self]
    · rw [Function.update_of_ne new]
      exact alive
  unfold construct at taken
  split at taken
  · cases taken
    exact grows
  · split at taken
    · cases taken
    · cases taken
      exact grows

theorem built_alive {kind : Kind} {uid : Option Nat}
    (taken : step s (.construct kind uid) = some s') (alive : s.live t = true) :
    s'.live t = true := by
  have object (built : objectStep s (.construct kind uid) = some s') : s'.live t = true := by
    unfold objectStep at built
    split at built
    · cases built
    · rename_i same
      cases same
      exact construct_alive built alive
    all_goals simp_all
  unfold step at taken
  split at taken
  · simp only [loopStep] at taken
    split at taken
    · exact object taken
    · cases taken
  · split at taken
    · cases taken
    · unfold contextStep at taken
      split at taken
      · simp_all
      · simp_all
      · simp_all
      · simp_all
      · exact object taken
      · cases taken

theorem step_alive (inv : Invariant s nest) (taken : step s label = some s') (idle : Idle s t)
    (alive : s.live t = true) : s'.live t = true ∨ s'.tasks = s.tasks := by
  by_cases built : ∃ kind uid, label = .construct kind uid
  · obtain ⟨kind, uid, rfl⟩ := built
    exact Or.inl (built_alive taken alive)
  · cases step_changes inv (fun kind uid same => built ⟨kind, uid, same⟩) taken with
    | same _ _ kept => exact Or.inl (by rw [kept.live]; exact alive)
    | left _ _ k context frame outer _ _ ended => exact Or.inl (by rw [ended.live]; exact alive)
    | finished _ _ k context _ found ended =>
        rcases ended.object with ⟨live, -⟩ | ⟨live, -⟩
        · exact Or.inl (by rw [live]; exact alive)
        · refine Or.inl ?_
          have apart : t ≠ context.base := by
            rintro rfl
            exact idle k context found (base_mem context)
          rw [live, Function.update_of_ne apart]
          exact alive
    | lent k context target _ _ _ _ accepted => exact Or.inl (by rw [accepted.live]; exact alive)
    | refused target _ _ given => exact Or.inl (by rw [given]; exact alive)
    | destroyed _ other _ _ gone => exact Or.inr (by rw [gone])

/-- The step lemma of this module. -/
theorem step_ended {after : Nest} (inv : Invariant s nest) (later : Invariant s' after)
    (regular : Regular s label) (taken : step s label = some s') (ended : Ended s t) :
    Ended s' t ∧ (s'.tasks t).status = (s.tasks t).status := by
  have idle := step_seats inv regular taken ended.idle ended.begun
  refine ⟨⟨Nat.lt_of_lt_of_le ended.allocated (step_leaves taken).allocated, idle,
    step_begun taken ended.allocated ended.begun⟩, ?_⟩
  rcases step_status taken ended.allocated with same | why
  · exact same
  · cases status : (s'.tasks t).status with
    | ready =>
        rw [status] at why
        exact why.elim
    | limited =>
        rw [status] at why
        exact why.elim
    | running =>
        -- a running task that is alive stands on a stack
        rw [status] at why
        rcases step_alive inv taken ended.idle why with alive | same
        · obtain ⟨k, context, found, member⟩ := later.running t alive status
          exact absurd member (idle k context found)
        · rw [← status, same]
    | completed =>
        rw [status] at why
        obtain ⟨⟨context, shown, -, rfl⟩, -⟩ := why
        exact absurd ended.idle (running_seated inv shown)
    | childUnready =>
        rw [status] at why
        obtain ⟨context, shown, -, rfl, -⟩ := why
        exact absurd ended.idle (running_seated inv shown)
    | canceled =>
        rw [status] at why
        obtain ⟨context, shown, canceled⟩ := why
        exact absurd ended.idle (cancels_seated inv shown canceled)

theorem step_completions (inv : Invariant s nest) (taken : step s label = some s')
    (once : s.done.Nodup) : s'.done.Nodup ∧ s.done <+: s'.done := by
  rcases step_done taken with same | ⟨t, ⟨-, unsettled⟩, more⟩
  · rw [same]
    exact ⟨once, List.prefix_rfl⟩
  · rw [more]
    refine ⟨?_, List.prefix_append _ _⟩
    have fresh : t ∉ s.done := by
      rw [inv.done]
      rcases unsettled with runs | canceled
      · simp [runs]
      · simp [canceled]
    rw [← List.concat_eq_append, List.nodup_concat]
    exact ⟨fresh, once⟩

end Endings

structure Onward (s s' : State) : Prop where
  nested : ∃ nest, Invariant s' nest
  once : s'.done.Nodup
  order : s.done <+: s'.done
  allocated : s.next ≤ s'.next
  begun : ∀ t < s.next, ¬Unbegun s t → ¬Unbegun s' t
  ended : ∀ t, Ended s t → Ended s' t ∧ (s'.tasks t).status = (s.tasks t).status

inductive Phase where
  | waiting | seated | ended
  deriving DecidableEq

def Phase.rank : Phase → Nat
  | .waiting => 0
  | .seated => 1
  | .ended => 2

instance (s : State) (t : Nat) : Decidable (Unbegun s t) :=
  inferInstanceAs (Decidable ((s.tasks t).status = .ready ∨ (s.tasks t).status = .limited))

def phase (s : State) (t : Nat) : Phase :=
  if Unbegun s t then .waiting else if Engaged s t then .seated else .ended

section Runs

variable {s s' : State} {nest : Nest} {label : Label} {earlier labels : List Label} {t : Nat}

theorem phase_ended (inv : Invariant s nest) (allocated : t < s.next) :
    phase s t = .ended ↔ Ended s t := by
  unfold phase
  constructor
  · intro last
    split at last
    · cases last
    · rename_i begun
      split at last
      · cases last
      · rename_i off
        exact ⟨allocated, idle_of inv off, begun⟩
  · intro ended
    rw [if_neg ended.begun, if_neg]
    rintro ⟨context, there, member⟩
    obtain ⟨k, -, found⟩ := Option.bind_eq_some_iff.mp there
    exact ended.idle k context found member

theorem onward_refl (inv : Invariant s nest) (once : s.done.Nodup) : Onward s s where
  nested := ⟨nest, inv⟩
  once := once
  order := List.prefix_rfl
  allocated := Nat.le_refl _
  begun _ _ begun := begun
  ended _ ended := ⟨ended, rfl⟩

theorem onward_step {middle : State} (onward : Onward s middle) (regular : Regular middle label)
    (taken : step middle label = some s') : Onward s s' := by
  obtain ⟨nest, inv⟩ := onward.nested
  obtain ⟨after, later, -⟩ := step_kept inv regular taken
  obtain ⟨once, order⟩ := step_completions inv taken onward.once
  have allocated := (step_leaves taken).allocated
  refine ⟨⟨after, later⟩, once, onward.order.trans order, Nat.le_trans onward.allocated allocated,
    fun t within begun => ?_, fun t ended => ?_⟩
  · exact step_begun taken (Nat.lt_of_lt_of_le within onward.allocated)
      (onward.begun t within begun)
  · obtain ⟨still, same⟩ := onward.ended t ended
    obtain ⟨next, kept⟩ := step_ended inv later regular taken still
    exact ⟨next, kept.trans same⟩

theorem onward_along (onward : Onward s s) (along : Along step Regular s labels)
    (run : replay step s labels = some s') : Onward s s' :=
  replay_invariant (Onward s) (fun _ _ _ onward regular taken => onward_step onward regular taken)
    onward along run

/-- In a regular run the life of a task goes one way: it waits, it stands on a stack, it has
ended. What has ended keeps its status, which is a final one as long as the object exists.
`done` lists every completed task once, in the order of the completions. -/
theorem task_lives (before : Along step Regular {} earlier)
    (reached : replay step {} earlier = some s) (along : Along step Regular s labels)
    (run : replay step s labels = some s') :
    (∀ t < s.next, (phase s t).rank ≤ (phase s' t).rank ∧
      (phase s t = .ended → (s'.tasks t).status = (s.tasks t).status ∧
        (s.live t = true → (s.tasks t).status = .completed ∨ (s.tasks t).status = .canceled ∨
          (s.tasks t).status = .childUnready))) ∧
      s'.done.Nodup ∧ s.done <+: s'.done ∧
        ∀ t, t ∈ s'.done ↔ (s'.tasks t).status = .completed := by
  have first := onward_along (onward_refl initial_invariant List.nodup_nil) before reached
  obtain ⟨nest, inv⟩ := first.nested
  have onward := onward_along (onward_refl inv first.once) along run
  obtain ⟨after, later⟩ := onward.nested
  refine ⟨fun t within => ⟨?_, fun last => ?_⟩, onward.once, onward.order, later.done⟩
  · cases now : phase s t with
    | waiting => exact Nat.zero_le _
    | seated =>
        have begun : ¬Unbegun s t := by
          intro new
          rw [phase, if_pos new] at now
          cases now
        rw [phase, if_neg (onward.begun t within begun)]
        split <;> simp [Phase.rank]
    | ended =>
        obtain ⟨still, -⟩ := onward.ended t ((phase_ended inv within).mp now)
        rw [(phase_ended later (Nat.lt_of_lt_of_le within onward.allocated)).mpr still]
  · have ended := (phase_ended inv within).mp last
    refine ⟨(onward.ended t ended).2, fun alive => ?_⟩
    have begun := ended.begun
    have stopped : (s.tasks t).status ≠ .running := by
      intro runs
      obtain ⟨k, context, found, member⟩ := inv.running t alive runs
      exact ended.idle k context found member
    unfold Unbegun at begun
    cases status : (s.tasks t).status <;> simp_all

end Runs

/-- The second sleep of `any_of(sleep, sleep)` has ended, and the first one was canceled. Then
the `any_of` and the top task come to their ends. -/
theorem task_lives_two : ∃ s s', replay step {} SchedulerContracts.firstOfTwo = some s ∧
    replay step s [.tau, .tau, .ret, .tau] = some s' ∧ s.done = [2] ∧ s'.done = [2, 3, 0] ∧
      s'.done.Nodup ∧ (s'.tasks 1).status = .canceled := by
  have reached : (replay step {} SchedulerContracts.firstOfTwo).isSome := by decide +kernel
  have regular : Along step Regular {} SchedulerContracts.firstOfTwo := by decide +kernel
  have ran : (replay step ((replay step {} SchedulerContracts.firstOfTwo).get reached)
      [.tau, .tau, .ret, .tau]).isSome := by decide +kernel +revert
  have along : Along step Regular ((replay step {} SchedulerContracts.firstOfTwo).get reached)
      [.tau, .tau, .ret, .tau] := by decide +kernel +revert
  have within : 1 < ((replay step {} SchedulerContracts.firstOfTwo).get reached).next := by
    decide +kernel +revert
  have ended : phase ((replay step {} SchedulerContracts.firstOfTwo).get reached) 1 = .ended ∧
      (((replay step {} SchedulerContracts.firstOfTwo).get reached).tasks 1).status =
        .canceled := by decide +kernel +revert
  obtain ⟨lives, once, -, -⟩ := task_lives regular (Option.some_get reached).symm along
    (Option.some_get ran).symm
  refine ⟨_, _, (Option.some_get reached).symm, (Option.some_get ran).symm, ?_, ?_, once,
    (((lives 1 within).2 ended.1).1).trans ended.2⟩
  · clear within ended lives once ran along
    decide +kernel +revert
  · clear within ended lives once along
    decide +kernel +revert

end Cocoflow.SchedulerLives
