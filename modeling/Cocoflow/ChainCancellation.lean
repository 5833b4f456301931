import Mathlib.Data.List.Basic
import Mathlib.Logic.Function.Basic
import Cocoflow.SchedulerUnwinding

/-!
The cancellation of a child of `any_of` or `all_of`. Whatever chain of awaits stands on the
coroutine of the child, and whatever else has to be unwound in between, the tasks of the chain
are told from the innermost one outwards, and control comes back to the combinator. This holds
in regular runs. A rejected `await` of a child that is in use takes the id of the child away,
and then the cancellation goes to the event loop.
-/

namespace Cocoflow.ChainCancellation

open LabelledRuns Scheduler SchedulerNest SchedulerLocal SchedulerSteps SchedulerCancel
open SchedulerCalls SchedulerSwitch SchedulerRuns SchedulerFrame SchedulerContracts
open SchedulerUnwinding

/-- What is left of an awaited task behind the handler of its `__await`. -/
structure Dropped (s : State) (t : Nat) : Prop where
  status : (s.tasks t).status = .canceled
  reuse : (s.tasks t).reuse = none
  uid : (s.tasks t).uid = none

/-- The cancellation of `chain`, innermost task first, has come back to coroutine `k`, whose
context is `canceller`. `calls` are the calls of `cancel()` so far. -/
structure Unwound (k : Nat) (canceller : Context) (chain calls : List Nat) (s : State) : Prop where
  calls : calls.filter (fun t => t ∈ chain) = chain
  status : ∀ t ∈ chain, (s.tasks t).status = .canceled
  reuse : ∀ t ∈ chain, (s.tasks t).reuse = none
  uid : ∀ t ∈ chain.dropLast, (s.tasks t).uid = none
  exec : s.exec = some k
  waits : s.contexts k = some canceller
  signal : s.signal = false

def Proper (s : State) (label : Label) : Prop := s.exec ≠ none ∧ Disciplined s label

def Outside (j : Nat) (s : State) : Prop :=
  ∀ context, s.contexts j = some context → inBody context.point = false

/-- While the chain that was on coroutine `j` is unwound for coroutine `k`. -/
structure Unwinding (k j : Nat) (mode : Mode) (rest : Nest) (canceller : Context)
    (chain seen : List Nat) (above : Nest) (s : State) : Prop where
  cancelling : ∀ entry ∈ above, entry.2 = Mode.cancelling
  nested : Invariant s (above ++ (j, .cancelling) :: (k, mode) :: rest)
  waits : s.contexts k = some canceller
  chained : ∃ context gone, s.contexts j = some context ∧ chain = gone ++ context.chain ∧
    (∀ t ∈ gone, Dropped s t) ∧ seen.filter (fun t => t ∈ chain) = gone ++ shown context

section Steps

variable {s s' : State} {k j l : Nat} {mode : Mode} {rest above : Nest}
  {canceller context : Context} {chain seen : List Nat}

theorem modeOf_above (cancelling : ∀ entry ∈ above, entry.2 = Mode.cancelling) :
    modeOf (above ++ (j, .cancelling) :: rest) j = .cancelling := by
  induction above with
  | nil => exact modeOf_head ..
  | cons entry below ih =>
      obtain ⟨l, mode⟩ := entry
      simp only [List.cons_append, modeOf]
      split
      · exact cancelling _ List.mem_cons_self
      · exact ih fun other member => cancelling other (List.mem_cons_of_mem _ member)

theorem cancelling_outside (placed : Placed s l context .cancelling) :
    inBody context.point = false := by
  cases point : context.point with
  | yielded at_ => rfl
  | returning => rfl
  | throwing => rfl
  | cancelLoop i unsupport caller =>
      simp only [Placed, point] at placed
      obtain ⟨which, children, -, -, -, -, calls⟩ := placed
      cases caller <;> simp [Placed.Calls, Mode.Live] at calls <;> simp [inBody]
  | canceling i unsupport caller =>
      simp only [Placed, point] at placed
      obtain ⟨which, children, t, -, -, -, -, -, calls⟩ := placed
      cases caller <;> simp [Placed.Calls, Mode.Live] at calls <;> simp [inBody]
  | _ => simp [Placed, point, Mode.Live] at placed

theorem unwinding_outside (unwinding : Unwinding k j mode rest canceller chain seen above s) :
    Outside j s := by
  intro context there
  have placed := (unwinding.nested.sound j context there).placed
  rw [modeOf_above unwinding.cancelling] at placed
  exact cancelling_outside placed

theorem cancelCall_inner (exec : s.exec = some l) (found : s.contexts l = some context) {t : Nat}
    (member : t ∈ cancelCall s .tau) : t = context.inner := by
  rw [cancelCall_running exec found] at member
  split at member
  · exact List.mem_singleton.mp member
  · split at member
    · exact List.mem_singleton.mp member
    · cases member
  · cases member

theorem dropped_kept {nest : Nest} (inv : Invariant s nest) (found : s.contexts l = some context)
    (writes : Writes s nest context s') {t : Nat} (dropped : Dropped s t) : Dropped s' t := by
  have away {q : Nat} {other : Context} (there : s.contexts q = some other) : t ∉ other.chain := by
    intro member
    have own := ((inv.sound q other there).owned t member).2
    rw [dropped.uid] at own
    cases own
  have same := writes t (away found) fun q other there _ => away there
  exact ⟨by rw [same]; exact dropped.status, by rw [same]; exact dropped.reuse,
    by rw [same]; exact dropped.uid⟩

theorem unwinding_above (unwinding : Unwinding k j mode rest canceller chain seen
      ((l, .cancelling) :: above) s)
    (found : s.contexts l = some context) (kept : Kept s s' ((l, .cancelling) ::
      (above ++ (j, .cancelling) :: (k, mode) :: rest)))
    (unrolls : Unrolls s l context s') (writes : Writes s ((l, .cancelling) ::
      (above ++ (j, .cancelling) :: (k, mode) :: rest)) context s') :
    ∃ after, Unwinding k j mode rest canceller chain (seen ++ cancelCall s .tau) after s' := by
  have inv := unwinding.nested
  have below := head_not_below inv found
  have apart : j ≠ l := by
    rintro rfl
    simp at below
  have different : k ≠ l := by
    rintro rfl
    simp at below
  obtain ⟨next, gone, there, split, dropped, calls⟩ := unwinding.chained
  have contexts : ∀ q, q ≠ l → s'.contexts q = s.contexts q := by
    intro q away
    cases unrolls with
    | stays point contexts => rw [contexts, Function.update_of_ne away]
    | pops frame outer awaits contexts => rw [contexts, Function.update_of_ne away]
    | ends q' alone finish contexts => rw [contexts, Function.update_of_ne away]
  -- the task that is being cancelled is on the upper coroutine, not in the chain
  have silent : (cancelCall s .tau).filter (fun t => t ∈ chain) = [] := by
    rw [List.filter_eq_nil_iff]
    intro t call
    have here := cancelCall_inner inv.exec found call
    have engaged : t ∈ context.chain := here ▸ inner_mem context
    simp only [decide_eq_true_eq, split, List.mem_append, not_or]
    constructor
    · intro member
      have own := ((inv.sound l context found).owned t engaged).2
      rw [(dropped t member).uid] at own
      cases own
    · intro member
      exact apart (engaged_once inv there found member engaged)
  have nested : ∃ after, (∀ entry ∈ after, entry.2 = Mode.cancelling) ∧
      Invariant s' (after ++ (j, .cancelling) :: (k, mode) :: rest) := by
    have older := fun entry member =>
      unwinding.cancelling entry (List.mem_cons_of_mem (l, Mode.cancelling) member)
    have covered {after : Context} (moved : s'.contexts l = some after)
        (onward : ∀ at_, after.point ≠ .yielded at_) : ∃ after,
          (∀ entry ∈ after, entry.2 = Mode.cancelling) ∧
            Invariant s' (after ++ (j, .cancelling) :: (k, mode) :: rest) := by
      obtain ⟨first, new, inv'⟩ := nest_covered inv kept moved onward
      refine ⟨first ++ (l, .cancelling) :: above, ?_, by simpa using inv'⟩
      intro entry member
      rcases List.mem_append.mp member with member | member
      · exact new entry member
      · exact unwinding.cancelling entry member
    cases unrolls with
    | stays point contexts _ _ onward =>
        exact covered (by rw [contexts, Function.update_self]) onward
    | pops frame outer awaits contexts =>
        exact covered (by rw [contexts, Function.update_self]) (by simp)
    | ends q alone finish contexts =>
        exact ⟨above, older, nest_uncovered inv kept (by rw [contexts, Function.update_self])⟩
  obtain ⟨after, cancelling, inv'⟩ := nested
  refine ⟨after, cancelling, inv', (contexts k different).trans unwinding.waits, next, gone,
    (contexts j apart).trans there, split, fun t member => ?_, ?_⟩
  · exact dropped_kept inv found writes (dropped t member)
  · rw [List.filter_append, silent, List.append_nil]
    exact calls

theorem unwinding_chain (unwinding : Unwinding k j mode rest canceller chain seen [] s)
    (found : s.contexts j = some context)
    (kept : Kept s s' ((j, .cancelling) :: (k, mode) :: rest)) (unrolls : Unrolls s j context s')
    (writes : Writes s ((j, .cancelling) :: (k, mode) :: rest) context s') :
    Unwound k canceller chain (seen ++ cancelCall s .tau) s' ∨
      ∃ after, Unwinding k j mode rest canceller chain (seen ++ cancelCall s .tau) after s' := by
  have inv := unwinding.nested
  have below := head_not_below inv found
  have different : k ≠ j := by
    rintro rfl
    simp at below
  obtain ⟨next, gone, there, split, dropped, calls⟩ := unwinding.chained
  rw [found] at there
  cases there
  have still := fun t member => dropped_kept inv found writes (dropped t member)
  -- every call is one for a task of the chain
  have told : (seen ++ cancelCall s .tau).filter (fun t => t ∈ chain) =
      gone ++ (shown context ++ cancelCall s .tau) := by
    rw [List.filter_append, calls, List.append_assoc]
    congr 2
    rw [List.filter_eq_self]
    intro t call
    have here := cancelCall_inner inv.exec found call
    simp [split, here, inner_mem context]
  cases unrolls with
  | stays point contexts shows _ onward =>
      have moved : s'.contexts j = some { context with point := point } := by
        rw [contexts, Function.update_self]
      obtain ⟨after, cancelling, inv'⟩ := nest_covered inv kept moved onward
      refine Or.inr ⟨after, cancelling, inv', ?_, _, gone, moved, split, still, ?_⟩
      · rw [contexts, Function.update_of_ne different]
        exact unwinding.waits
      · rw [told, shows]
  | pops frame outer awaits contexts shows _ status reuse uid =>
      have moved : s'.contexts j =
          some { context with awaits := outer, point := .throwing } := by
        rw [contexts, Function.update_self]
      obtain ⟨after, cancelling, inv'⟩ := nest_covered inv kept moved (by simp)
      obtain ⟨inner, stack⟩ := popped_chain .throwing awaits
      refine Or.inr ⟨after, cancelling, inv', ?_, _, gone ++ [context.inner], moved, ?_, ?_, ?_⟩
      · rw [contexts, Function.update_of_ne different]
        exact unwinding.waits
      · rw [split, stack, inner, List.append_assoc]
        rfl
      · intro t member
        rcases List.mem_append.mp member with before | last
        · exact still t before
        · cases List.mem_singleton.mp last
          exact ⟨status, reuse, uid⟩
      · rw [told, shows]
        simp [shown, cancelBegun]
  | ends q alone finish contexts shows _ status reuse exec signal =>
      have inner : context.inner = context.base := by
        unfold Context.inner
        rw [alone]
      have stack : context.chain = [context.base] := by
        unfold Context.chain
        rw [alone]
        rfl
      rw [stack] at split
      have back : q = k := by
        obtain ⟨q', mode', below, lower, i, unsupport, caller, shape, -, -, -, reports⟩ :=
          cancelling_below inv found
        cases shape
        rw [finish] at reports
        exact Option.some.inj reports
      subst back
      refine Or.inl ⟨?_, fun t member => ?_, fun t member => ?_, fun t member => ?_, exec, ?_,
        signal⟩
      · rw [told, shows, split, inner]
      · rw [split] at member
        rcases List.mem_append.mp member with before | last
        · exact (still t before).status
        · cases List.mem_singleton.mp last
          exact status
      · rw [split] at member
        rcases List.mem_append.mp member with before | last
        · exact (still t before).reuse
        · cases List.mem_singleton.mp last
          exact reuse
      · rw [split, List.dropLast_concat] at member
        exact (still t member).uid
      · rw [contexts, Function.update_of_ne different]
        exact unwinding.waits

theorem unwinding_destroy (unwinding : Unwinding k j mode rest canceller chain seen above s)
    {t : Nat} (disciplined : Disciplined s (.destroy t))
    (elsewhere : ∀ q other, s.contexts q = some other → other.point ≠ .goal)
    (taken : objectStep s (.destroy t) = some s') :
    Unwinding k j mode rest canceller chain seen above s' := by
  have inv' := keeps_objects unwinding.nested disciplined elsewhere taken
  obtain ⟨rfl, -⟩ := destroy_lightens unwinding.nested taken
  obtain ⟨context, gone, there, split, dropped, calls⟩ := unwinding.chained
  exact ⟨unwinding.cancelling, inv', unwinding.waits, context, gone, there, split,
    fun t member => ⟨(dropped t member).status, (dropped t member).reuse, (dropped t member).uid⟩,
    calls⟩

/-- The step lemma of an unwinding: it can go on, and whatever is done it goes on or is over. -/
theorem unwinding_progress (unwinding : Unwinding k j mode rest canceller chain seen above s)
    (atOnce : CancelsAtOnce s .tau) :
    (∃ label next, Proper s label ∧ step s label = some next) ∧
      ∀ label next, Proper s label → step s label = some next →
        Unwound k canceller chain (seen ++ cancelCall s label) next ∨
          (∃ after, Unwinding k j mode rest canceller chain (seen ++ cancelCall s label) after next) ∧
            loads next < loads s := by
  have inv := unwinding.nested
  -- the coroutine on top is being unwound as well
  obtain ⟨l, deeper, shape⟩ : ∃ l deeper,
      above ++ (j, .cancelling) :: (k, mode) :: rest = (l, .cancelling) :: deeper := by
    cases above with
    | nil => exact ⟨j, _, rfl⟩
    | cons entry below =>
        obtain ⟨l, other⟩ := entry
        obtain rfl : other = .cancelling := unwinding.cancelling _ List.mem_cons_self
        exact ⟨l, _, rfl⟩
  have top := inv
  rw [shape] at top
  obtain ⟨context, found⟩ := head_found top.nested
  have exec : s.exec = some l := top.exec
  obtain ⟨next, taken, unrolls, writes⟩ := unroll_tau top found atOnce
  have placed := placed_of top found
  have elsewhere := no_goal top found (by
    intro goal
    simp only [Placed, goal] at placed
    obtain ⟨token, bad⟩ := placed.1
    cases bad)
  have disciplined : Disciplined s .tau := by
    intro other shown enters
    rw [Option.mem_def, running, exec, Option.bind_some, found] at shown
    cases shown
    simp only [Placed, enters] at placed
    obtain ⟨token, bad⟩ := placed.1
    cases bad
  refine ⟨⟨.tau, next, ⟨by simp [exec], disciplined⟩, taken⟩, ?_⟩
  intro label other proper moved
  rcases unwinding_label top found moved with rfl | ⟨t, rfl, gone⟩
  · rw [taken] at moved
    cases moved
    have lighter := lightens_loads top found (unrolls_lightens top taken unrolls)
    have kept := step_kept top ⟨disciplined, trivial, atOnce⟩ taken
    cases above with
    | nil =>
        cases shape
        rcases unwinding_chain unwinding found kept unrolls writes with isOver | after
        · exact Or.inl isOver
        · exact Or.inr ⟨after, lighter⟩
    | cons entry below =>
        cases shape
        exact Or.inr ⟨unwinding_above unwinding found kept unrolls writes, lighter⟩
  · refine Or.inr ⟨⟨above, ?_⟩, (destroy_lightens inv gone).2⟩
    have silent : cancelCall s (.destroy t) = [] := rfl
    rw [silent, List.append_nil]
    exact unwinding_destroy unwinding proper.2 elsewhere gone

end Steps

section Runs

variable {s : State} {k j i unsupport t₀ : Nat} {mode : Mode} {rest : Nest}
  {canceller context : Context} {caller : CancelCaller} {which : Combinator}
  {children : List Nat} {labels : List Label}

theorem signals_taken (inv : Invariant s ((k, mode) :: rest)) (found : s.contexts k = some canceller)
    (point : canceller.point = .cancelLoop i unsupport caller)
    (kind : (s.tasks canceller.inner).kind = .group which children)
    (here : children[i]? = some t₀) (runs : (s.tasks t₀).status = .running)
    (there : s.contexts j = some context) (base : context.base = t₀)
    (interruptable : ∀ t ∈ context.chain, (s.tasks t).uninterruptable = false) :
    step s .tau = some (signals s k canceller i unsupport caller t₀ j) := by
  have exec : s.exec = some k := inv.exec
  have inside : cancels canceller.point = true := by rw [point]; rfl
  have member : t₀ ∈ children := List.mem_of_getElem? here
  have family := placed_family (placed_of inv found) kind (cancels_opened inside)
  obtain ⟨l, other, place, same, uid, -, apart, -⟩ :=
    running_child inv found kind inside member runs
  obtain rfl : l = j := engaged_once inv place there (base_mem other)
    (same.trans base.symm ▸ base_mem context)
  rw [there] at place
  cases place
  have walk : protector s s.next t₀ = some none := by
    rcases protector_chain inv there with
      ⟨final, before, after, -, marked, split, -⟩ | ⟨walk, -⟩
    · have open_ := interruptable final (by simp [split])
      rw [marked] at open_
      cases open_
    · rw [← base]
      exact walk
  have owner := ((inv.sound k canceller found).owned _ (inner_mem canceller)).2
  have round : step s .tau = cancelRound s k canceller children i unsupport caller := by
    simp only [step, exec, found, contextStep, coroutineStep, point, kind, groupStep]
  rw [round, cancelRound, here]
  simp only [family.live t₀ member, runs, walk, owner, uid, if_true]
  rw [if_neg (by simp), swapRunning_back]
  · rfl
  · exact exec.symm
  · intro q going
    cases going
    exact ⟨context, (Function.update_of_ne apart _ _).trans there⟩

/-- In every regular run, whenever a combinator is about to cancel a child that runs, and no
task on the stack of the child is uninterruptable: the innermost one is suspended in
`__task_yield`, and unless a `cancel()` comes to wait, control comes back to the combinator,
behind exactly one call of `cancel()` for each of these tasks, the innermost one first, and no
further statement of their bodies. -/
theorem chain_cancelled (along : Along step Regular {} labels)
    (run : replay step {} labels = some s) (exec : s.exec = some k)
    (found : s.contexts k = some canceller)
    (point : canceller.point = .cancelLoop i unsupport caller)
    (kind : (s.tasks canceller.inner).kind = .group which children)
    (here : children[i]? = some t₀) (runs : (s.tasks t₀).status = .running)
    (there : s.contexts j = some context) (base : context.base = t₀)
    (interruptable : ∀ t ∈ context.chain, (s.tasks t).uninterruptable = false) :
    context.chain.Nodup ∧ (∃ at_, context.point = .yielded at_) ∧
      Inevitable step Proper cancelCall (Outside j)
        (fun calls state => ¬CancelsAtOnce state .tau ∨
          Unwound k { canceller with point := .canceling i unsupport caller } context.chain
            calls state) [] s := by
  obtain ⟨nest, inv⟩ := nested_along along run
  obtain ⟨mode, rest, rfl⟩ : ∃ mode rest, nest = (k, mode) :: rest := by
    have head := inv.exec
    rw [exec] at head
    cases nest with
    | nil => cases head
    | cons entry rest =>
        obtain ⟨l, mode⟩ := entry
        cases head
        exact ⟨mode, rest, rfl⟩
  have inside : cancels canceller.point = true := by rw [point]; rfl
  have member : t₀ ∈ children := List.mem_of_getElem? here
  have family := placed_family (placed_of inv found) kind (cancels_opened inside)
  have finish : (s.tasks context.base).finishTo = some k := by
    rw [base]
    exact family.finish t₀ member
  obtain ⟨apart, parked⟩ := adoptee_parked inv found there finish
  obtain ⟨at_, yields⟩ : ∃ at_, context.point = .yielded at_ := by
    have sound := inv.sound j context there
    rw [parked] at sound
    exact placed_parked sound.placed
  refine ⟨(inv.sound j context there).nodup, ⟨at_, yields⟩, ?_⟩
  have taken := signals_taken inv found point kind here runs there base interruptable
  have inv' := step_signals inv found point kind here runs there base interruptable
  have silent : cancelCall s .tau = [] := by
    rw [cancelCall_running exec found, point]
  have start : Unwinding k j mode rest { canceller with point := .canceling i unsupport caller }
      context.chain [] [] (signals s k canceller i unsupport caller t₀ j) := by
    refine ⟨by simp, inv', Function.update_self .., context, [], ?_, rfl, by simp, ?_⟩
    · exact (Function.update_of_ne apart _ _).trans there
    · simp [shown, yields, cancelBegun]
  have disciplined : Disciplined s .tau := by
    intro other shown enters
    rw [Option.mem_def, running, exec, Option.bind_some, found] at shown
    cases shown
    rw [point] at enters
    cases enters
  refine .onward [] s ?_ ⟨.tau, _, ⟨by simp [exec], disciplined⟩, taken⟩ ?_
  · intro other place
    rw [there] at place
    cases place
    rw [yields]
    rfl
  · intro label next proper moved
    -- the combinator is in the cancel loop: the program has no other step
    obtain rfl : label = .tau := by
      simp only [step, exec, found] at moved
      unfold contextStep at moved
      split at moved <;> simp_all
    rw [taken] at moved
    cases moved
    rw [silent, List.append_nil]
    refine inevitable_of_measure loads
      (fun calls state => ∃ above, Unwinding k j mode rest
        { canceller with point := .canceling i unsupport caller } context.chain calls above state)
      ?_ ⟨[], start⟩
    rintro calls state ⟨above, unwinding⟩
    by_cases atOnce : CancelsAtOnce state .tau
    · obtain ⟨able, all⟩ := unwinding_progress unwinding atOnce
      refine Or.inr ⟨unwinding_outside unwinding, able, fun label after proper step_ => ?_⟩
      rcases all label after proper step_ with isOver | onward
      · exact Or.inl (Or.inr isOver)
      · exact Or.inr onward
    · exact Or.inl (Or.inl atOnce)

/-- The top task awaits `any_of(1, 4)`. Task 1 awaits task 2, which awaits task 3, which
sleeps; task 4 completes at once. -/
def threeDeep : List Label :=
  [.construct .user (some 0), .construct .user (some 1), .construct .user none,
    .construct .event none, .construct .event (some 2), .construct (.group .anyOf [1, 4]) none,
    .cocoflow 0, .tau, .await 5, .tau, .tau, .tau, .await 2, .tau, .await 3, .block, .tau, .tau,
    .skip, .tau, .tau, .tau]

theorem chain_cancelled_deep : ∃ s, replay step {} threeDeep = some s ∧
    Inevitable step Proper cancelCall (Outside 1)
      (fun calls state => ¬CancelsAtOnce state .tau ∨
        Unwound 0 ⟨0, [⟨0, 5⟩], .canceling 0 0 .anyRun, 0⟩ [3, 2, 1] calls state) [] s := by
  have reached : (replay step {} threeDeep).isSome := by decide +kernel
  have regular : Along step Regular {} threeDeep := by decide +kernel
  have exec : ((replay step {} threeDeep).get reached).exec = some 0 := by decide +kernel +revert
  have found : ((replay step {} threeDeep).get reached).contexts 0 =
      some ⟨0, [⟨0, 5⟩], .cancelLoop 0 0 .anyRun, 0⟩ := by decide +kernel +revert
  have there : ((replay step {} threeDeep).get reached).contexts 1 =
      some ⟨1, [⟨2, 3⟩, ⟨1, 2⟩], .yielded .event, 1⟩ := by decide +kernel +revert
  have kind : (((replay step {} threeDeep).get reached).tasks 5).kind = .group .anyOf [1, 4] := by
    decide +kernel +revert
  have runs : (((replay step {} threeDeep).get reached).tasks 1).status = .running := by
    decide +kernel +revert
  exact ⟨_, (Option.some_get reached).symm,
    (chain_cancelled regular (Option.some_get reached).symm exec found rfl kind rfl runs there rfl
      (by decide +kernel +revert)).2.2⟩

/-- The top task awaits `any_of(1, 2)`. Task 1 sleeps; task 2 awaits task 1, is refused, and
ends. -/
def refusedSibling : List Label :=
  [.construct .user (some 0), .construct .event (some 1), .construct .user (some 2),
    .construct (.group .anyOf [1, 2]) none, .cocoflow 0, .tau, .await 3, .tau, .tau, .block, .tau,
    .tau, .tau, .await 1, .ret, .tau, .tau, .tau]

/-- The cancellation of task 1 then switches to the event loop, with the signal raised. -/
theorem chain_not_cancelled : ¬∀ labels s k j i unsupport t₀ canceller context caller which children,
    replay step {} labels = some s → s.exec = some k → s.contexts k = some canceller →
    canceller.point = .cancelLoop i unsupport caller →
    (s.tasks canceller.inner).kind = .group which children → children[i]? = some t₀ →
    (s.tasks t₀).status = .running → s.contexts j = some context → context.base = t₀ →
    (∀ t ∈ context.chain, (s.tasks t).uninterruptable = false) →
    (∃ at_, context.point = .yielded at_) →
    Inevitable step Proper cancelCall (Outside j)
      (fun calls state => ¬CancelsAtOnce state .tau ∨
        Unwound k { canceller with point := .canceling i unsupport caller } context.chain
          calls state) [] s := by
  intro claimed
  have reached : (replay step {} refusedSibling).isSome := by decide +kernel
  have exec : ((replay step {} refusedSibling).get reached).exec = some 0 := by
    decide +kernel +revert
  have found : ((replay step {} refusedSibling).get reached).contexts 0 =
      some ⟨0, [⟨0, 3⟩], .cancelLoop 0 0 .anyRun, 0⟩ := by decide +kernel +revert
  have there : ((replay step {} refusedSibling).get reached).contexts 1 =
      some ⟨1, [], .yielded .event, 1⟩ := by decide +kernel +revert
  have kind : (((replay step {} refusedSibling).get reached).tasks 3).kind =
      .group .anyOf [1, 2] := by decide +kernel +revert
  have runs : (((replay step {} refusedSibling).get reached).tasks 1).status = .running := by
    decide +kernel +revert
  have moved : (step ((replay step {} refusedSibling).get reached) .tau).isSome := by
    decide +kernel +revert
  have away : ((step ((replay step {} refusedSibling).get reached) .tau).get moved).exec = none := by
    decide +kernel +revert
  have cancels : CancelsAtOnce ((replay step {} refusedSibling).get reached) .tau := by
    decide +kernel +revert
  have disciplined : Disciplined ((replay step {} refusedSibling).get reached) .tau := by
    decide +kernel +revert
  have inevitable := claimed refusedSibling _ 0 1 0 0 1 _ _ .anyRun .anyOf [1, 2]
    (Option.some_get reached).symm exec found rfl kind rfl runs there rfl (by decide +kernel +revert)
    ⟨.event, rfl⟩
  cases inevitable with
  | arrived _ _ there =>
      rcases there with blocks | isOver
      · exact blocks cancels
      · have waits := isOver.waits
        rw [found] at waits
        cases waits
  | onward _ _ _ _ all =>
      have later := all .tau _ ⟨by rw [exec]; simp, disciplined⟩ (Option.some_get moved).symm
      cases later with
      | arrived _ _ there =>
          rcases there with blocks | isOver
          · refine blocks fun context shown => ?_
            rw [running, away] at shown
            cases shown
          · have back := isOver.exec
            rw [away] at back
            cases back
      | onward _ _ _ able =>
          obtain ⟨label, next, proper, -⟩ := able
          exact proper.1 away

end Runs

end Cocoflow.ChainCancellation
