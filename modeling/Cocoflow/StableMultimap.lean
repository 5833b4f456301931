import Mathlib.Order.Defs.Unbundled
import Mathlib.Data.List.Basic

/-!
A multimap as an ordered container: entries are kept in the order of their keys, entries
with equivalent keys in the order of their insertion. `Mirrors` compares it with a plain log
of the entries in the order of their insertion: for every key both show the same entries in
the same order, so the first match in the container is the earliest match in the log.
-/

namespace Cocoflow.StableMultimap

universe u v
variable {α : Type u} {β : Type v} (less : α → α → Prop)

def Equivalent (one other : α) : Prop := ¬less one other ∧ ¬less other one

section Operations

variable [DecidableRel less]

instance (one other : α) : Decidable (Equivalent less one other) :=
  inferInstanceAs (Decidable (¬less one other ∧ ¬less other one))

/-- Insertion behind the entries with an equivalent key. -/
def insert (entry : α × β) : List (α × β) → List (α × β)
  | [] => [entry]
  | head :: rest =>
      if less entry.1 head.1 then entry :: head :: rest else head :: insert entry rest

def matching (key : α) (entry : α × β) : Bool := Equivalent less key entry.1

def find? (key : α) (table : List (α × β)) : Option (α × β) := table.find? (matching less key)

def eraseFirst (key : α) (table : List (α × β)) : List (α × β) :=
  table.eraseP (matching less key)

def eraseKey (key : α) (table : List (α × β)) : List (α × β) :=
  table.filter fun entry => !matching less key entry

end Operations

def Ordered (table : List (α × β)) : Prop := table.Pairwise fun one other => ¬less other.1 one.1

/-- Under every key the container shows the entries of the log, in the same order. -/
structure Mirrors [DecidableRel less] (table log : List (α × β)) : Prop where
  ordered : Ordered less table
  same : ∀ key, table.filter (matching less key) = log.filter (matching less key)

section Matches

variable {less} [DecidableRel less]

theorem find?_split {key : α} {entry : α × β} {table : List (α × β)}
    (found : find? less key table = some entry) :
    Equivalent less key entry.1 ∧ ∃ before after, table = before ++ entry :: after ∧
      eraseFirst less key table = before ++ after := by
  obtain ⟨match_, before, after, split, earlier⟩ := List.find?_eq_some_iff_append.mp found
  refine ⟨of_decide_eq_true match_, before, after, split, ?_⟩
  unfold eraseFirst
  rw [split, List.eraseP_append_right _ fun other member => by simpa using earlier other member,
    List.eraseP_cons_of_pos match_]

end Matches

section Equivalence

variable {less}

theorem equivalent_symm {one other : α} (same : Equivalent less one other) :
    Equivalent less other one := ⟨same.2, same.1⟩

variable [IsStrictWeakOrder α less]

theorem equivalent_refl (key : α) : Equivalent less key key :=
  ⟨irrefl_of less key, irrefl_of less key⟩

theorem equivalent_trans {one middle other : α} (first : Equivalent less one middle)
    (second : Equivalent less middle other) : Equivalent less one other :=
  IsStrictWeakOrder.incomp_trans one middle other first second

theorem less_of_equivalent {one other key : α} (same : Equivalent less one other)
    (before : less one key) : less other key := by
  by_contra after
  by_cases back : less key other
  · exact same.1 (trans_of less before back)
  · exact (equivalent_trans same ⟨after, back⟩).1 before

variable [DecidableRel less]

/-- Erasing a key takes out one value alone exactly if no other is under an equivalent key. -/
theorem eraseKey_alone {δ : Type*} [DecidableEq δ] (task : β → δ) {entry : α × β}
    {table : List (α × β)}
    (own : ∀ other ∈ table, task other.2 = task entry.2 → other = entry) :
    (eraseKey less entry.1 table = table.filter fun other => task other.2 ≠ task entry.2) ↔
      ∀ other ∈ table, Equivalent less entry.1 other.1 → task other.2 = task entry.2 := by
  unfold eraseKey
  constructor
  · intro same other member equivalent
    by_contra apart
    have stays : other ∈ table.filter fun other => task other.2 ≠ task entry.2 :=
      List.mem_filter.mpr ⟨member, by simpa using apart⟩
    rw [← same] at stays
    obtain ⟨-, unmatched⟩ := List.mem_filter.mp stays
    simp [matching, equivalent] at unmatched
  · intro alone
    apply List.filter_congr
    intro other member
    by_cases here : task other.2 = task entry.2
    · obtain rfl := own other member here
      simp [matching, equivalent_refl]
    · have apart : ¬Equivalent less entry.1 other.1 := fun same => here (alone other member same)
      simp [matching, apart, here]

theorem matching_congr {one other : α} (same : Equivalent less one other) (entry : α × β) :
    matching less one entry = matching less other entry := by
  unfold matching
  apply decide_eq_decide.mpr
  exact ⟨fun one => equivalent_trans (equivalent_symm same) one,
    fun other => equivalent_trans same other⟩

end Equivalence

section Insertion

variable {less} [DecidableRel less]

theorem insert_perm (entry : α × β) (table : List (α × β)) :
    (insert less entry table).Perm (entry :: table) := by
  induction table with
  | nil => exact List.Perm.refl _
  | cons head rest ih =>
      unfold insert
      split
      · exact List.Perm.refl _
      · exact (ih.cons head).trans (List.Perm.swap entry head rest)

theorem mem_insert (entry other : α × β) (table : List (α × β)) :
    other ∈ insert less entry table ↔ other = entry ∨ other ∈ table := by
  rw [(insert_perm entry table).mem_iff, List.mem_cons]

variable [IsStrictWeakOrder α less]

theorem insert_ordered (entry : α × β) {table : List (α × β)} (ordered : Ordered less table) :
    Ordered less (insert less entry table) := by
  induction table with
  | nil => simp [insert, Ordered]
  | cons head rest ih =>
      unfold Ordered at ordered ih ⊢
      rw [List.pairwise_cons] at ordered
      obtain ⟨first, later⟩ := ordered
      unfold insert
      split
      · rename_i before
        rw [List.pairwise_cons]
        refine ⟨fun other member back => ?_, List.pairwise_cons.mpr ⟨first, later⟩⟩
        rcases List.mem_cons.mp member with rfl | behind
        · exact irrefl_of less _ (trans_of less before back)
        · exact first other behind (trans_of less back before)
      · rename_i after
        rw [List.pairwise_cons]
        refine ⟨fun other member => ?_, ih later⟩
        rcases (mem_insert entry other rest).mp member with rfl | behind
        · exact after
        · exact first other behind

/-- A new entry comes last among those with an equivalent key. -/
theorem insert_filter (key : α) (entry : α × β) {table : List (α × β)}
    (ordered : Ordered less table) :
    (insert less entry table).filter (matching less key) =
      (table ++ [entry]).filter (matching less key) := by
  induction table with
  | nil => rfl
  | cons head rest ih =>
      unfold Ordered at ordered
      rw [List.pairwise_cons] at ordered
      obtain ⟨first, later⟩ := ordered
      unfold insert
      split
      · rename_i before
        by_cases here : matching less key entry = true
        · -- everything behind the new entry has a greater key
          have none : (head :: rest).filter (matching less key) = [] := by
            rw [List.filter_eq_nil_iff]
            intro other member match_
            have same : Equivalent less entry.1 other.1 :=
              equivalent_trans (equivalent_symm (of_decide_eq_true here))
                (of_decide_eq_true match_)
            rcases List.mem_cons.mp member with rfl | behind
            · exact same.1 before
            · exact first other behind (less_of_equivalent same before)
          rw [List.filter_cons_of_pos here, none, List.filter_append, none,
            List.filter_cons_of_pos here]
          rfl
        · rw [List.filter_cons_of_neg here, List.filter_append, List.filter_cons_of_neg here]
          simp
      · simp only [List.cons_append, List.filter_cons]
        split
        · rw [ih later]
        · exact ih later

end Insertion

section Log

variable {less} [DecidableRel less] {table log : List (α × β)}

theorem mirrors_nil : Mirrors less ([] : List (α × β)) [] :=
  ⟨List.Pairwise.nil, fun _ => rfl⟩

theorem mirrors_find (mirrors : Mirrors less table log) (key : α) :
    find? less key table = find? less key log := by
  unfold find?
  rw [← List.head?_filter, ← List.head?_filter, mirrors.same]

theorem mirrors_eraseKey (taken : α) (mirrors : Mirrors less table log) :
    Mirrors less (eraseKey less taken table) (eraseKey less taken log) where
  ordered := List.Pairwise.sublist List.filter_sublist mirrors.ordered
  same key := by
    unfold eraseKey
    rw [List.filter_filter, List.filter_filter]
    simp only [Bool.and_comm (matching less key _)]
    rw [← List.filter_filter, ← List.filter_filter, mirrors.same]

variable [IsStrictWeakOrder α less]

theorem mirrors_mem (mirrors : Mirrors less table log) (entry : α × β) :
    entry ∈ table ↔ entry ∈ log := by
  have same := mirrors.same entry.1
  have here : matching less entry.1 entry = true := decide_eq_true (equivalent_refl entry.1)
  constructor
  · intro member
    have filtered := List.mem_filter.mpr ⟨member, here⟩
    rw [same] at filtered
    exact List.mem_of_mem_filter filtered
  · intro member
    have filtered := List.mem_filter.mpr ⟨member, here⟩
    rw [← same] at filtered
    exact List.mem_of_mem_filter filtered

theorem mirrors_insert (entry : α × β) (mirrors : Mirrors less table log) :
    Mirrors less (insert less entry table) (log ++ [entry]) where
  ordered := insert_ordered entry mirrors.ordered
  same key := by
    rw [insert_filter key entry mirrors.ordered, List.filter_append, mirrors.same,
      ← List.filter_append]

theorem eraseFirst_filter (taken key : α) (entries : List (α × β)) :
    (eraseFirst less taken entries).filter (matching less key) =
      if Equivalent less key taken then (entries.filter (matching less key)).tail
      else entries.filter (matching less key) := by
  unfold eraseFirst
  induction entries with
  | nil => simp
  | cons head rest ih =>
      by_cases first : matching less taken head = true
      · rw [List.eraseP_cons_of_pos first]
        split
        · rename_i same
          rw [List.filter_cons_of_pos (by rw [matching_congr same]; exact first)]
          rfl
        · rename_i apart
          rw [List.filter_cons_of_neg]
          intro here
          exact apart (equivalent_trans (of_decide_eq_true here)
            (equivalent_symm (of_decide_eq_true first)))
      · rw [List.eraseP_cons_of_neg first]
        simp only [List.filter_cons]
        split
        · rename_i here
          rw [ih]
          split
          · rename_i same
            rw [matching_congr same] at here
            exact absurd here first
          · rfl
        · exact ih

theorem mirrors_eraseFirst (taken : α) (mirrors : Mirrors less table log) :
    Mirrors less (eraseFirst less taken table) (eraseFirst less taken log) where
  ordered := List.Pairwise.sublist List.eraseP_sublist mirrors.ordered
  same key := by
    rw [eraseFirst_filter, eraseFirst_filter, mirrors.same]

end Log

end Cocoflow.StableMultimap
