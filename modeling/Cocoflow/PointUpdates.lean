import Mathlib.Data.List.Perm.Basic
import Mathlib.Data.List.Nodup
import Mathlib.Logic.Function.Basic

/-!
Lists observed through a function that changes at one point. A list without
repetitions sees the change once, so what is collected or counted along the list
moves by exactly the contribution of that point.
-/

namespace Cocoflow.PointUpdates

universe u v
variable {α : Type u} {β : Type v}

theorem update_some [DecidableEq α] {table : α → Option β} {point key : α}
    {written : Option β} {value : β} (found : Function.update table point written key = some value) :
    (key = point ∧ written = some value) ∨ (key ≠ point ∧ table key = some value) := by
  by_cases same : key = point
  · subst key
    rw [Function.update_self] at found
    exact Or.inl ⟨rfl, found⟩
  · rw [Function.update_of_ne same] at found
    exact Or.inr ⟨same, found⟩

theorem update_single [DecidableEq α] {point key : α} {written value : β}
    (found : Function.update (fun _ => none) point (some written) key = some value) :
    key = point ∧ written = value := by
  rcases update_some found with ⟨same, here⟩ | ⟨-, none_⟩
  · exact ⟨same, Option.some.inj here⟩
  · cases none_

/-- Two observers that differ at most at one member collect the same elements, up to
order, once the contribution of that member is exchanged. -/
theorem collected_exchange (items : List α) (point : α) (unique : items.Nodup)
    (member : point ∈ items) (before after : α → Option β)
    (same : ∀ item, item ≠ point → after item = before item) :
    ((before point).toList ++ items.filterMap after).Perm
      ((after point).toList ++ items.filterMap before) := by
  induction items with
  | nil => simp at member
  | cons head rest ih =>
      obtain ⟨absent, tailUnique⟩ := List.nodup_cons.mp unique
      by_cases here : head = point
      · subst head
        have tail : rest.filterMap after = rest.filterMap before := by
          apply List.filterMap_congr
          intro item inRest
          exact same item (fun equal => absent (equal ▸ inRest))
        have split (observe : α → Option β) :
            (point :: rest).filterMap observe =
              (observe point).toList ++ rest.filterMap observe := by
          cases h : observe point <;> simp [h]
        rw [split, split, tail, ← List.append_assoc, ← List.append_assoc]
        exact List.perm_append_comm.append_right _
      · have later : point ∈ rest := (List.mem_cons.mp member).resolve_left (Ne.symm here)
        have tail := ih tailUnique later
        have kept := same head here
        cases value : before head with
        | none => simpa [List.filterMap_cons, kept, value] using tail
        | some found =>
            simp only [List.filterMap_cons, kept, value]
            exact (List.perm_middle.trans (tail.cons found)).trans List.perm_middle.symm

theorem collected_same (items : List α) (before after : α → Option β)
    (same : ∀ item ∈ items, after item = before item) :
    items.filterMap after = items.filterMap before :=
  List.filterMap_congr same

theorem count_dropped (items : List α) (point : α) (unique : items.Nodup)
    (member : point ∈ items) (before after : α → Bool)
    (was : before point = true) (now : after point = false)
    (same : ∀ item, item ≠ point → after item = before item) :
    items.countP before = items.countP after + 1 := by
  induction items with
  | nil => simp at member
  | cons head rest ih =>
      obtain ⟨absent, tailUnique⟩ := List.nodup_cons.mp unique
      by_cases here : head = point
      · subst head
        have tail : rest.countP after = rest.countP before := by
          apply List.countP_congr
          intro item inRest
          rw [same item (fun equal => absent (equal ▸ inRest))]
        simp [was, now, tail]
      · have later : point ∈ rest := (List.mem_cons.mp member).resolve_left (Ne.symm here)
        have tail := ih tailUnique later
        simp only [List.countP_cons, same head here, tail]
        omega

end Cocoflow.PointUpdates
