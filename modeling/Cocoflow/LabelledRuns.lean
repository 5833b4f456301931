import Mathlib.Data.List.Basic

/-!
Partial labelled machines. A machine is a function `step` that refuses a label
with `none`; a schedule is a list of labels. `Along` says that every label of
a schedule is admitted in the state from which it is taken. The rules below turn a
fact about one admitted step into a fact about every admitted schedule.
-/

namespace Cocoflow.LabelledRuns

universe u v
variable {State : Type u} {Label : Type v}

def replay (step : State → Label → Option State) : State → List Label → Option State
  | state, [] => some state
  | state, label :: rest => (step state label).bind fun next => replay step next rest

def Along (step : State → Label → Option State) (admitted : State → Label → Prop) :
    State → List Label → Prop
  | _, [] => True
  | state, label :: rest =>
      admitted state label ∧ (step state label).elim True fun next =>
        Along step admitted next rest

/-- Every state of a schedule, the first one included, satisfies `holds`. -/
def Throughout (step : State → Label → Option State) (holds : State → Prop) :
    State → List Label → Prop
  | state, [] => holds state
  | state, label :: rest =>
      holds state ∧ (step state label).elim True fun next => Throughout step holds next rest

instance decidableAlong (step : State → Label → Option State)
    (admitted : State → Label → Prop) [∀ state label, Decidable (admitted state label)] :
    (state : State) → (labels : List Label) → Decidable (Along step admitted state labels)
  | _, [] => isTrue trivial
  | state, label :: rest =>
      match h : step state label with
      | none => decidable_of_iff (admitted state label) (by simp [Along, h])
      | some next =>
          have := decidableAlong step admitted next rest
          decidable_of_iff (admitted state label ∧ Along step admitted next rest)
            (by simp [Along, h])

instance decidableThroughout (step : State → Label → Option State)
    (holds : State → Prop) [DecidablePred holds] :
    (state : State) → (labels : List Label) → Decidable (Throughout step holds state labels)
  | state, [] => inferInstanceAs (Decidable (holds state))
  | state, label :: rest =>
      match h : step state label with
      | none => decidable_of_iff (holds state) (by simp [Throughout, h])
      | some next =>
          have := decidableThroughout step holds next rest
          decidable_of_iff (holds state ∧ Throughout step holds next rest)
            (by simp [Throughout, h])

variable {step : State → Label → Option State} {admitted : State → Label → Prop}

theorem replay_cons {state last : State} {label : Label} {rest : List Label}
    (run : replay step state (label :: rest) = some last) :
    ∃ next, step state label = some next ∧ replay step next rest = some last :=
  Option.bind_eq_some_iff.mp run

theorem replay_append (state : State) (before after : List Label) :
    replay step state (before ++ after) =
      (replay step state before).bind fun middle => replay step middle after := by
  induction before generalizing state with
  | nil => rfl
  | cons label rest ih =>
      simp only [List.cons_append, replay]
      cases step state label with
      | none => rfl
      | some next => simpa using ih next

theorem along_cons {state next : State} {label : Label} {rest : List Label}
    (along : Along step admitted state (label :: rest)) (taken : step state label = some next) :
    admitted state label ∧ Along step admitted next rest := by
  simpa [Along, taken] using along

theorem along_both {allowed : State → Label → Prop} {state : State} {labels : List Label}
    (one : Along step admitted state labels) (two : Along step allowed state labels) :
    Along step (fun state label => admitted state label ∧ allowed state label) state labels := by
  induction labels generalizing state with
  | nil => trivial
  | cons label rest ih =>
      refine ⟨⟨one.1, two.1⟩, ?_⟩
      cases taken : step state label with
      | none => trivial
      | some next => exact ih (along_cons one taken).2 (along_cons two taken).2

theorem along_append {state middle : State} {before after : List Label}
    (first : Along step admitted state before) (run : replay step state before = some middle)
    (second : Along step admitted middle after) :
    Along step admitted state (before ++ after) := by
  induction before generalizing state with
  | nil =>
      cases run
      exact second
  | cons label rest ih =>
      obtain ⟨next, taken, tail⟩ := replay_cons run
      obtain ⟨allowed, later⟩ := along_cons first taken
      refine ⟨allowed, ?_⟩
      rw [taken]
      exact ih later tail

theorem forall_initial_cons (holds : List Label → Prop) (head : Label) (rest : List Label) :
    (∀ before, before <+: head :: rest → holds before) ↔
      holds [] ∧ ∀ before, before <+: rest → holds (head :: before) := by
  constructor
  · intro all
    exact ⟨all [] (List.nil_prefix), fun before inside =>
      all (head :: before) ((List.prefix_cons_inj head).mpr inside)⟩
  · rintro ⟨first, later⟩ before inside
    cases before with
    | nil => exact first
    | cons other more =>
        obtain ⟨rfl, shorter⟩ := List.cons_prefix_cons.mp inside
        exact later more shorter

theorem throughout_first {holds : State → Prop} {state : State} {labels : List Label}
    (throughout : Throughout step holds state labels) : holds state := by
  cases labels with
  | nil => exact throughout
  | cons label rest => exact throughout.1

theorem along_of_forall (labels : List Label) (state : State)
    (allowed : ∀ label ∈ labels, ∀ state, admitted state label) :
    Along step admitted state labels := by
  induction labels generalizing state with
  | nil => trivial
  | cons label rest ih =>
      refine ⟨allowed label (by simp) state, ?_⟩
      cases step state label with
      | none => trivial
      | some next => exact ih next fun other member => allowed other (by simp [member])

/-- The induction rule of the development: an invariant that holds first and that every
admitted step keeps holds at the end of every admitted schedule. -/
theorem replay_invariant (invariant : State → Prop)
    (kept : ∀ state label next, invariant state → admitted state label →
      step state label = some next → invariant next)
    {state last : State} {labels : List Label} (start : invariant state)
    (along : Along step admitted state labels) (run : replay step state labels = some last) :
    invariant last := by
  induction labels generalizing state with
  | nil =>
      cases run
      exact start
  | cons label rest ih =>
      obtain ⟨next, taken, tail⟩ := replay_cons run
      obtain ⟨allowed, later⟩ := along_cons along taken
      exact ih (kept state label next start allowed taken) later tail

theorem replay_always (invariant : State → Prop)
    (kept : ∀ state label next, invariant state →
      step state label = some next → invariant next)
    {state last : State} {labels : List Label} (start : invariant state)
    (run : replay step state labels = some last) : invariant last := by
  induction labels generalizing state with
  | nil =>
      cases run
      exact start
  | cons label rest ih =>
      obtain ⟨next, taken, tail⟩ := replay_cons run
      exact ih (kept state label next start taken) tail

/-- A quantity that grows with every counted label bounds their number. -/
theorem replay_counts (quantity : State → Nat) (counted : Label → Bool)
    (grows : ∀ state label next, step state label = some next →
      quantity state + (if counted label then 1 else 0) ≤ quantity next)
    {state last : State} {labels : List Label} (run : replay step state labels = some last) :
    labels.countP counted + quantity state ≤ quantity last := by
  induction labels generalizing state with
  | nil =>
      cases run
      simp
  | cons label rest ih =>
      obtain ⟨next, taken, tail⟩ := replay_cons run
      have first := grows state label next taken
      have later := ih tail
      rw [List.countP_cons]
      omega

theorem replay_spends (quantity : State → Nat) (counted : Label → Bool)
    (spends : ∀ state label next, step state label = some next →
      quantity next + (if counted label then 1 else 0) ≤ quantity state)
    {state last : State} {labels : List Label} (run : replay step state labels = some last) :
    labels.countP counted + quantity last ≤ quantity state := by
  induction labels generalizing state with
  | nil =>
      cases run
      simp
  | cons label rest ih =>
      obtain ⟨next, taken, tail⟩ := replay_cons run
      have first := spends state label next taken
      have later := ih tail
      rw [List.countP_cons]
      omega

theorem throughout_always (invariant holds : State → Prop)
    (kept : ∀ state label next, invariant state → step state label = some next → invariant next)
    (follows : ∀ state, invariant state → holds state) {state : State} (labels : List Label)
    (start : invariant state) : Throughout step holds state labels := by
  induction labels generalizing state with
  | nil => exact follows state start
  | cons label rest ih =>
      refine ⟨follows state start, ?_⟩
      cases taken : step state label with
      | none => trivial
      | some next => exact ih (kept state label next start taken)

/-- Where a step leads to a good state exactly when it is admitted, a schedule stays in good
states exactly when all its steps are admitted. -/
theorem throughout_iff_along (invariant holds : State → Prop)
    (kept : ∀ state label next, invariant state → holds state →
      step state label = some next → holds next → invariant next)
    (leads : ∀ state label next, invariant state → holds state →
      step state label = some next → (holds next ↔ admitted state label))
    {state last : State} {labels : List Label} (start : invariant state) (good : holds state)
    (run : replay step state labels = some last) :
    Throughout step holds state labels ↔ Along step admitted state labels := by
  induction labels generalizing state with
  | nil => exact ⟨fun _ => trivial, fun _ => good⟩
  | cons label rest ih =>
      obtain ⟨next, taken, tail⟩ := replay_cons run
      have exact_ := leads state label next start good taken
      simp only [Throughout, Along, taken, Option.elim_some]
      constructor
      · rintro ⟨-, throughout⟩
        have onward := throughout_first throughout
        have later := kept state label next start good taken onward
        exact ⟨exact_.mp onward, (ih later onward tail).mp throughout⟩
      · rintro ⟨allowed, along⟩
        have onward := exact_.mpr allowed
        have later := kept state label next start good taken onward
        exact ⟨good, (ih later onward tail).mpr along⟩

section Simulation

universe w x
variable {Abstract : Type w} {Event : Type x} {abstractStep : Abstract → Event → Option Abstract}

def observed (step : State → Label → Option State) (observe : State → Label → List Event) :
    State → List Label → List Event
  | _, [] => []
  | state, label :: rest =>
      observe state label ++
        (step state label).elim [] fun next => observed step observe next rest

theorem observed_total (observe : State → Label → List Event) (quantity : State → Nat)
    (raises : ∀ state label next, step state label = some next →
      quantity next = quantity state + (observe state label).length)
    {state last : State} {labels : List Label} (run : replay step state labels = some last) :
    quantity last = quantity state + (observed step observe state labels).length := by
  induction labels generalizing state with
  | nil =>
      cases run
      rfl
  | cons label rest ih =>
      obtain ⟨next, taken, tail⟩ := replay_cons run
      simp only [observed, taken, Option.elim_some, List.length_append]
      rw [ih tail, raises state label next taken, Nat.add_assoc]

/-- If every step is matched by the events it shows, every schedule is. -/
theorem replay_simulates (observe : State → Label → List Event)
    (related : State → Abstract → Prop)
    (matched : ∀ state label next abstract, related state abstract →
      step state label = some next → ∃ after,
        replay abstractStep abstract (observe state label) = some after ∧ related next after)
    {state last : State} {abstract : Abstract} {labels : List Label}
    (start : related state abstract) (run : replay step state labels = some last) :
    ∃ after, replay abstractStep abstract (observed step observe state labels) = some after ∧
      related last after := by
  induction labels generalizing state abstract with
  | nil =>
      cases run
      exact ⟨abstract, rfl, start⟩
  | cons label rest ih =>
      obtain ⟨next, taken, tail⟩ := replay_cons run
      obtain ⟨middle, first, kept⟩ := matched state label next abstract start taken
      obtain ⟨after, later, ends⟩ := ih kept tail
      refine ⟨after, ?_, ends⟩
      simp only [observed, taken, Option.elim_some]
      rw [replay_append, first]
      exact later

theorem replay_simulates_along (observe : State → Label → List Event)
    (permitted : Abstract → Event → Prop) (related : State → Abstract → Prop)
    (matched : ∀ state label next abstract, related state abstract → admitted state label →
      step state label = some next → ∃ after,
        replay abstractStep abstract (observe state label) = some after ∧
          Along abstractStep permitted abstract (observe state label) ∧ related next after)
    {state last : State} {abstract : Abstract} {labels : List Label}
    (start : related state abstract) (along : Along step admitted state labels)
    (run : replay step state labels = some last) :
    ∃ after, replay abstractStep abstract (observed step observe state labels) = some after ∧
      Along abstractStep permitted abstract (observed step observe state labels) ∧
        related last after := by
  induction labels generalizing state abstract with
  | nil =>
      cases run
      exact ⟨abstract, rfl, trivial, start⟩
  | cons label rest ih =>
      obtain ⟨next, taken, tail⟩ := replay_cons run
      obtain ⟨allowed, further⟩ := along_cons along taken
      obtain ⟨middle, first, meets, kept⟩ := matched state label next abstract start allowed taken
      obtain ⟨after, later, goes, ends⟩ := ih kept further tail
      simp only [observed, taken, Option.elim_some]
      refine ⟨after, ?_, along_append meets first goes, ends⟩
      rw [replay_append, first]
      exact later

/-- Two schedules that differ only in their labels. If every step of the first is matched by
the step of the second, with the same events, so is every schedule. -/
theorem replay_lockstep {observe : State → Label → List Event} {allowed : State → Label → Prop}
    (one two : Label → Label) (related : State → State → Prop)
    (matched : ∀ state twin label next, related state twin → admitted state (one label) →
      allowed twin (two label) → step state (one label) = some next →
      ∃ after, step twin (two label) = some after ∧ related next after ∧
        observe twin (two label) = observe state (one label))
    {state twin last : State} {labels : List Label} (start : related state twin)
    (along : Along step admitted state (labels.map one))
    (beside : Along step allowed twin (labels.map two))
    (run : replay step state (labels.map one) = some last) :
    ∃ after, replay step twin (labels.map two) = some after ∧ related last after ∧
      observed step observe twin (labels.map two) =
        observed step observe state (labels.map one) := by
  induction labels generalizing state twin with
  | nil =>
      cases run
      exact ⟨twin, rfl, start, rfl⟩
  | cons label rest ih =>
      obtain ⟨next, taken, tail⟩ := replay_cons run
      obtain ⟨meets, later⟩ := along_cons along taken
      obtain ⟨after, moved, kept, same⟩ := matched state twin label next start meets beside.1 taken
      obtain ⟨-, further⟩ := along_cons beside moved
      obtain ⟨final, ends, stays, shown⟩ := ih kept later further tail
      refine ⟨final, ?_, stays, ?_⟩
      · simp only [List.map_cons, replay, moved, Option.bind_some]
        exact ends
      · simp only [List.map_cons, observed, taken, moved, Option.elim_some, same, shown]

end Simulation

section Inevitability

universe y
variable {Event : Type y}

/-- Whichever admitted steps are taken, a state that satisfies `goal` is reached. Until then
there is an admitted step to take, and `holds`. The goal also sees the events that the steps
have shown. -/
inductive Inevitable (step : State → Label → Option State) (admitted : State → Label → Prop)
    (observe : State → Label → List Event) (holds : State → Prop)
    (goal : List Event → State → Prop) : List Event → State → Prop where
  | arrived (seen : List Event) (state : State) (there : goal seen state) :
      Inevitable step admitted observe holds goal seen state
  | onward (seen : List Event) (state : State) (meanwhile : holds state)
      (able : ∃ label next, admitted state label ∧ step state label = some next)
      (all : ∀ label next, admitted state label → step state label = some next →
        Inevitable step admitted observe holds goal (seen ++ observe state label) next) :
      Inevitable step admitted observe holds goal seen state

/-- The rule for inevitability: an invariant under which a step can be taken, and every step
reaches the goal or keeps the invariant and lowers a measure. -/
theorem inevitable_of_measure {observe : State → Label → List Event} {holds : State → Prop}
    {goal : List Event → State → Prop} (measure : State → Nat)
    (invariant : List Event → State → Prop)
    (progress : ∀ seen state, invariant seen state → goal seen state ∨
      holds state ∧ (∃ label next, admitted state label ∧ step state label = some next) ∧
        ∀ label next, admitted state label → step state label = some next →
          goal (seen ++ observe state label) next ∨
            invariant (seen ++ observe state label) next ∧ measure next < measure state)
    {seen : List Event} {state : State} (start : invariant seen state) :
    Inevitable step admitted observe holds goal seen state := by
  induction left : measure state using Nat.strongRecOn generalizing seen state with
  | _ left ih =>
      subst left
      rcases progress seen state start with there | ⟨meanwhile, able, all⟩
      · exact .arrived seen state there
      · apply Inevitable.onward seen state meanwhile able
        intro label next allowed taken
        rcases all label next allowed taken with there | ⟨kept, less⟩
        · exact .arrived _ _ there
        · exact ih (measure next) less kept rfl

end Inevitability

section Endless

variable {states : Nat → State} {labels : Nat → Label}

def Endless (step : State → Label → Option State) (states : Nat → State)
    (labels : Nat → Label) : Prop :=
  ∀ n, step (states n) (labels n) = some (states (n + 1))

def Fair (step : State → Label → Option State) (states : Nat → State) (labels : Nat → Label)
    (label : Label) : Prop :=
  ∀ n, (∀ m, n ≤ m → ∃ next, step (states m) label = some next) → ∃ m, n ≤ m ∧ labels m = label

theorem endless_always (invariant : State → Prop)
    (kept : ∀ state label next, invariant state → step state label = some next → invariant next)
    (endless : Endless step states labels) (start : invariant (states 0)) (n : Nat) :
    invariant (states n) := by
  induction n with
  | zero => exact start
  | succ n ih => exact kept _ _ _ ih (endless n)

/-- A state in which a fair label is due, until the goal is reached, leads to the goal. -/
theorem fair_leads (due goal : State → Prop) (label : Label)
    (kept : ∀ state other next, due state → step state other = some next → goal next ∨ due next)
    (able : ∀ state, due state → ∃ next, step state label = some next ∧ goal next)
    (endless : Endless step states labels) (fair : Fair step states labels label) {n : Nat}
    (start : due (states n)) : ∃ m, n ≤ m ∧ goal (states m) := by
  by_contra never
  have still (later : Nat) : due (states (n + later)) := by
    induction later with
    | zero => exact start
    | succ later ih =>
        rcases kept _ _ _ ih (endless (n + later)) with there | onward
        · exact absurd ⟨n + later + 1, by omega, there⟩ never
        · exact onward
  have waits (m : Nat) (later : n ≤ m) : due (states m) := by
    obtain ⟨more, rfl⟩ := Nat.exists_eq_add_of_le later
    exact still more
  obtain ⟨m, later, taken⟩ := fair n fun m later =>
    (able _ (waits m later)).imp fun _ both => both.1
  obtain ⟨next, possible, there⟩ := able _ (waits m later)
  have same := endless m
  rw [taken, possible] at same
  cases same
  exact never ⟨m + 1, by omega, there⟩

end Endless

end Cocoflow.LabelledRuns
