import Mathlib.Data.List.Basic

/-!
The first occurrence of a pattern in a stream. `firstEnd` searches by start positions and
returns the position right behind the first match, which is the length of the shortest
prefix that ends with the pattern. What was decided about a position does not change when
the stream goes on.
-/

namespace Cocoflow.FirstMatch

universe u
variable {α : Type u} [DecidableEq α]

def Occurs (pattern stream : List α) (start : Nat) : Prop :=
  (stream.drop start).take pattern.length = pattern

instance (pattern stream : List α) (start : Nat) : Decidable (Occurs pattern stream start) :=
  inferInstanceAs (Decidable (_ = _))

def firstEnd (pattern stream : List α) : Option Nat :=
  ((List.range (stream.length + 1 - pattern.length)).find? fun start =>
    decide (Occurs pattern stream start)).map (· + pattern.length)

/-- The length of the shortest prefix that ends with the pattern. -/
def ShortestEnd (pattern stream : List α) (length : Nat) : Prop :=
  length ≤ stream.length ∧ pattern <:+ stream.take length ∧
    ∀ shorter, shorter < length → ¬pattern <:+ stream.take shorter

omit [DecidableEq α] in
theorem occurs_append {pattern stream : List α} {start : Nat} (more : List α)
    (inside : start + pattern.length ≤ stream.length) :
    Occurs pattern (stream ++ more) start ↔ Occurs pattern stream start := by
  unfold Occurs
  rw [List.drop_append_of_le_length (by omega), List.take_append_of_le_length]
  rw [List.length_drop]
  omega

omit [DecidableEq α] in
theorem occurs_shift (pattern before stream : List α) (start : Nat) :
    Occurs pattern (before ++ stream) (before.length + start) ↔ Occurs pattern stream start := by
  unfold Occurs
  rw [List.drop_length_add_append]

omit [DecidableEq α] in
theorem occurs_take {pattern stream : List α} {start bound : Nat}
    (inside : start + pattern.length ≤ bound) :
    Occurs pattern (stream.take bound) start ↔ Occurs pattern stream start := by
  unfold Occurs
  rw [List.drop_take, List.take_take, Nat.min_eq_left (by omega)]

omit [DecidableEq α] in
theorem suffix_take_iff {pattern stream : List α} {length : Nat}
    (inside : length ≤ stream.length) :
    pattern <:+ stream.take length ↔
      ∃ start, start + pattern.length = length ∧ Occurs pattern stream start := by
  have extent : (stream.take length).length = length := List.length_take_of_le inside
  constructor
  · intro suffix
    have fits := suffix.length_le
    rw [extent] at fits
    refine ⟨length - pattern.length, by omega, ?_⟩
    have tail := List.suffix_iff_eq_drop.mp suffix
    have width : length - (length - pattern.length) = pattern.length := by omega
    rw [extent, List.drop_take, width] at tail
    exact tail.symm
  · rintro ⟨start, rfl, occurs⟩
    refine ⟨stream.take start, ?_⟩
    conv_lhs => rw [← occurs]
    rw [← List.take_add]

theorem firstEnd_some {pattern stream : List α} {length : Nat} :
    firstEnd pattern stream = some length ↔
      ∃ start, start + pattern.length = length ∧ length ≤ stream.length ∧
        Occurs pattern stream start ∧
        ∀ earlier, earlier < start → ¬Occurs pattern stream earlier := by
  unfold firstEnd
  rw [Option.map_eq_some_iff]
  simp only [List.find?_range_eq_some, List.mem_range, decide_eq_true_eq, Bool.not_eq_true',
    decide_eq_false_iff_not]
  constructor
  · rintro ⟨start, ⟨occurs, inside, first⟩, rfl⟩
    exact ⟨start, rfl, by omega, occurs, first⟩
  · rintro ⟨start, rfl, inside, occurs, first⟩
    exact ⟨start, ⟨occurs, by omega, first⟩, rfl⟩

theorem firstEnd_none {pattern stream : List α} :
    firstEnd pattern stream = none ↔
      ∀ start, start + pattern.length ≤ stream.length → ¬Occurs pattern stream start := by
  unfold firstEnd
  rw [Option.map_eq_none_iff, List.find?_eq_none]
  simp only [List.mem_range, decide_eq_true_eq]
  constructor
  · intro absent start inside
    exact absent start (by omega)
  · intro absent start inside
    exact absent start (by omega)

theorem firstEnd_shortest {pattern stream : List α} {length : Nat} :
    firstEnd pattern stream = some length ↔ ShortestEnd pattern stream length := by
  rw [firstEnd_some]
  unfold ShortestEnd
  constructor
  · rintro ⟨start, rfl, inside, occurs, first⟩
    refine ⟨inside, (suffix_take_iff inside).mpr ⟨start, rfl, occurs⟩, ?_⟩
    intro shorter less suffix
    obtain ⟨earlier, ends, found⟩ := (suffix_take_iff (by omega)).mp suffix
    exact first earlier (by omega) found
  · rintro ⟨inside, suffix, shortest⟩
    obtain ⟨start, rfl, occurs⟩ := (suffix_take_iff inside).mp suffix
    refine ⟨start, rfl, inside, occurs, ?_⟩
    intro earlier less found
    exact shortest (earlier + pattern.length) (by omega)
      ((suffix_take_iff (by omega)).mpr ⟨earlier, rfl, found⟩)

theorem firstEnd_append {pattern stream : List α} {length : Nat} (more : List α)
    (found : firstEnd pattern stream = some length) :
    firstEnd pattern (stream ++ more) = some length := by
  obtain ⟨start, rfl, inside, occurs, first⟩ := firstEnd_some.mp found
  refine firstEnd_some.mpr ⟨start, rfl, ?_, (occurs_append more inside).mpr occurs, ?_⟩
  · rw [List.length_append]
    omega
  · intro earlier less again
    exact first earlier less ((occurs_append more (by omega)).mp again)

theorem firstEnd_take {pattern stream : List α} {bound length : Nat} :
    firstEnd pattern (stream.take bound) = some length ↔
      length ≤ bound ∧ firstEnd pattern stream = some length := by
  rw [firstEnd_some, firstEnd_some]
  constructor
  · rintro ⟨start, rfl, inside, occurs, first⟩
    rw [List.length_take] at inside
    refine ⟨by omega, start, rfl, by omega, (occurs_take (by omega)).mp occurs, ?_⟩
    intro earlier less found
    exact first earlier less ((occurs_take (by omega)).mpr found)
  · rintro ⟨fits, start, rfl, inside, occurs, first⟩
    refine ⟨start, rfl, ?_, (occurs_take (by omega)).mpr occurs, ?_⟩
    · rw [List.length_take]
      omega
    · intro earlier less found
      exact first earlier less ((occurs_take (by omega)).mp found)

end Cocoflow.FirstMatch
