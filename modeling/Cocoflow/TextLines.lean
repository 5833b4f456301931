import Mathlib.Data.List.Basic
import Cocoflow.FirstMatch

/-!
Text in lines. A line is ended by two different symbols, a page of nonempty lines by an empty
one. The first end of a line in what follows is its own end, and the first double end in a
page is the end of the page.
-/

namespace Cocoflow.TextLines

open FirstMatch

universe u
variable {α : Type u} (cr lf : α)

/-- The end of the line does not occur inside the line. -/
def Clean : List α → Prop
  | [] => True
  | symbol :: rest => ¬(symbol = cr ∧ (rest ++ [cr, lf]).head? = some lf) ∧ Clean rest

def page (lines : List (List α)) : List α :=
  lines.flatMap (fun line => line ++ [cr, lf]) ++ [cr, lf]

variable {cr lf}

theorem clean_of_absent {line : List α} (absent : cr ∉ line) : Clean cr lf line := by
  induction line with
  | nil => trivial
  | cons symbol rest ih =>
      rw [List.mem_cons, not_or] at absent
      exact ⟨fun hit => absent.1 hit.1.symm, ih absent.2⟩

theorem clean_append {before line : List α} (absent : cr ∉ before) (clean : Clean cr lf line) :
    Clean cr lf (before ++ line) := by
  induction before with
  | nil => exact clean
  | cons symbol rest ih =>
      rw [List.mem_cons, not_or] at absent
      exact ⟨fun hit => absent.1 hit.1.symm, ih absent.2⟩

theorem occurs_two {stream : List α} {start : Nat} :
    Occurs [cr, lf] stream start ↔ ∃ more, stream.drop start = cr :: lf :: more := by
  unfold Occurs
  constructor
  · intro occurs
    refine ⟨(stream.drop start).drop 2, ?_⟩
    have split := List.take_append_drop 2 (stream.drop start)
    simp only [List.length_cons, List.length_nil] at occurs
    rw [occurs] at split
    exact split.symm
  · rintro ⟨more, split⟩
    simp [split]

theorem clean_start {line more : List α} (clean : Clean cr lf line) (start : Nat)
    (inside : start < line.length) : ¬Occurs [cr, lf] (line ++ cr :: lf :: more) start := by
  induction line generalizing start with
  | nil => cases inside
  | cons symbol rest ih =>
      cases start with
      | zero =>
          intro occurs
          obtain ⟨others, split⟩ := occurs_two.mp occurs
          simp only [List.drop_zero, List.cons_append, List.cons.injEq] at split
          refine clean.1 ⟨split.1, ?_⟩
          cases rest with
          | nil => simpa using congrArg List.head? split.2
          | cons next tail => simpa using congrArg List.head? split.2
      | succ earlier =>
          have shifted := occurs_shift [cr, lf] [symbol] (rest ++ cr :: lf :: more) earlier
          rw [List.length_singleton, Nat.add_comm] at shifted
          intro occurs
          exact ih clean.2 earlier (by simpa using inside) (shifted.mp occurs)

theorem clean_of_start {line : List α}
    (absent : ∀ start, start < line.length → ¬Occurs [cr, lf] (line ++ [cr, lf]) start) :
    Clean cr lf line := by
  induction line with
  | nil => trivial
  | cons symbol rest ih =>
      constructor
      · rintro ⟨rfl, second⟩
        refine absent 0 (by simp) (occurs_two.mpr ?_)
        cases behind : rest ++ [symbol, lf] with
        | nil => simp at behind
        | cons next more =>
            rw [behind, List.head?_cons, Option.some.injEq] at second
            exact ⟨more, by rw [List.cons_append, behind, second]; rfl⟩
      · apply ih
        intro start inside occurs
        have shifted := occurs_shift [cr, lf] [symbol] (rest ++ [cr, lf]) start
        rw [List.length_singleton, Nat.add_comm] at shifted
        exact absent (start + 1) (by simpa using inside) (shifted.mpr occurs)

theorem clean_suffix {before line : List α} (clean : Clean cr lf (before ++ line)) :
    Clean cr lf line := by
  induction before with
  | nil => exact clean
  | cons symbol rest ih => exact ih clean.2

theorem line_end [DecidableEq α] {line : List α} (more : List α) (clean : Clean cr lf line) :
    firstEnd [cr, lf] (line ++ cr :: lf :: more) = some (line.length + 2) := by
  refine firstEnd_some.mpr ⟨line.length, rfl, ?_, ?_, clean_start clean⟩
  · simp only [List.length_append, List.length_cons]
    omega
  · exact occurs_two.mpr ⟨more, by simp⟩

theorem occurs_four {stream : List α} {start : Nat}
    (occurs : Occurs [cr, lf, cr, lf] stream start) :
    Occurs [cr, lf] stream start ∧ Occurs [cr, lf] stream (start + 2) := by
  unfold Occurs at occurs
  have split := List.take_append_drop 4 (stream.drop start)
  simp only [List.length_cons, List.length_nil] at occurs
  rw [occurs] at split
  constructor
  · exact occurs_two.mpr ⟨_, split.symm⟩
  · refine occurs_two.mpr ⟨(stream.drop start).drop 4, ?_⟩
    rw [← List.drop_drop, ← split]
    simp

theorem page_cons (line : List α) (lines : List (List α)) :
    page cr lf (line :: lines) = line ++ cr :: lf :: page cr lf lines := by
  simp [page]

theorem page_start {line : List α} {lines : List (List α)} {more : List α}
    (nonempty : line ≠ []) (clean : Clean cr lf line) :
    ¬Occurs [cr, lf] (page cr lf (line :: lines) ++ more) 0 := by
  rw [page_cons, List.append_assoc]
  exact clean_start clean 0 (List.length_pos_iff.mpr nonempty)

theorem page_absent (different : cr ≠ lf) {lines : List (List α)} {more : List α}
    (clean : ∀ line ∈ lines, line ≠ [] ∧ Clean cr lf line) (start : Nat)
    (inside : start + 4 < (page cr lf lines).length) :
    ¬Occurs [cr, lf, cr, lf] (page cr lf lines ++ more) start := by
  induction lines generalizing start with
  | nil =>
      simp only [page, List.flatMap_nil, List.nil_append, List.length_cons, List.length_nil]
        at inside
      omega
  | cons line others ih =>
      obtain ⟨nonempty, own⟩ := clean line (by simp)
      intro occurs
      have whole : page cr lf (line :: others) ++ more =
          line ++ cr :: lf :: (page cr lf others ++ more) := by
        rw [page_cons]
        simp
      rw [whole] at occurs
      have length : (page cr lf (line :: others)).length =
          line.length + 2 + (page cr lf others).length := by
        rw [page_cons]
        simp only [List.length_append, List.length_cons]
        omega
      obtain ⟨first, second⟩ := occurs_four occurs
      rcases Nat.lt_trichotomy start line.length with before | rfl | behind
      · exact clean_start own start before first
      · -- the first end is that of the line, so the second one starts the other lines
        have shifted := occurs_shift [cr, lf] (line ++ [cr, lf]) (page cr lf others ++ more) 0
        simp only [List.append_assoc, List.cons_append, List.nil_append, List.length_append,
          List.length_cons, List.length_nil, Nat.add_zero] at shifted
        cases others with
        | nil =>
            rw [length] at inside
            simp [page] at inside
        | cons next rest =>
            obtain ⟨next_nonempty, next_clean⟩ := clean next (by simp)
            exact page_start next_nonempty next_clean (shifted.mp second)
      · obtain ⟨later, rfl⟩ := Nat.exists_eq_add_of_lt behind
        -- the end lies in the other lines, or between CR and LF of this one
        cases later with
        | zero =>
            obtain ⟨others_, split⟩ := occurs_two.mp first
            rw [Nat.add_zero, ← List.drop_drop, List.drop_left] at split
            simp only [List.drop_succ_cons, List.drop_zero, List.cons.injEq] at split
            exact different split.1.symm
        | succ offset =>
            have shifted := occurs_shift [cr, lf, cr, lf] (line ++ [cr, lf])
              (page cr lf others ++ more) offset
            simp only [List.append_assoc, List.cons_append, List.nil_append, List.length_append,
              List.length_cons, List.length_nil] at shifted
            have position : line.length + (offset + 1) + 1 = line.length + (0 + 1 + 1) + offset := by
              omega
            rw [position] at occurs inside
            refine ih (fun other member => clean other (by simp [member])) offset ?_
              (shifted.mp occurs)
            omega

/-- The first double end of a page with a line is its own end. -/
theorem page_end [DecidableEq α] (different : cr ≠ lf) {lines : List (List α)} (more : List α)
    (some_ : lines ≠ []) (clean : ∀ line ∈ lines, line ≠ [] ∧ Clean cr lf line) :
    firstEnd [cr, lf, cr, lf] (page cr lf lines ++ more) = some (page cr lf lines).length := by
  obtain ⟨before, ends⟩ : ∃ before, page cr lf lines = before ++ [cr, lf, cr, lf] := by
    have split := List.dropLast_append_getLast some_
    refine ⟨lines.dropLast.flatMap (fun line => line ++ [cr, lf]) ++ lines.getLast some_, ?_⟩
    conv_lhs => rw [← split]
    simp [page]
  refine firstEnd_some.mpr ⟨before.length, ?_, ?_, ?_, ?_⟩
  · simp [ends]
  · simp
  · unfold Occurs
    simp [ends]
  · intro earlier less
    refine page_absent different clean earlier ?_
    simp only [ends, List.length_append, List.length_cons, List.length_nil]
    omega

end Cocoflow.TextLines
