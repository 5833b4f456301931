import Mathlib.Data.List.Basic
import Mathlib.Data.List.TakeWhile
import Cocoflow.TcpConnection
import Cocoflow.FirstMatch
import Cocoflow.TextLines
import Cocoflow.HttpResponse

/-!
The shape of what the parsers accept. A head that `http_rsp_parse` accepts is a page of lines,
so the `"\r\n\r\n"` that `recv_till` looks for is found exactly at its end. A size line that
`http_chunk_parse` accepts gives the value of its digits, whatever extension follows.
-/

namespace Cocoflow.HttpHead

open TcpConnection FirstMatch TextLines HttpResponse

theorem absent_of_kind {kind : Byte → Bool} {bytes : List Byte}
    (all : ∀ byte ∈ bytes, kind byte = true) {byte : Byte} (other : kind byte = false) :
    byte ∉ bytes := by
  intro member
  rw [all byte member] at other
  cases other

section StatusLine

theorem scanStatus_split {s digits left : List Byte}
    (scanned : scanStatus s = some (digits, left)) :
    s = digits ++ left ∧ (∀ byte ∈ digits, isDigit byte = true) ∧
      (left = [] ∨ ∃ rest, left = space :: rest) := by
  induction s generalizing digits with
  | nil =>
      cases scanned
      exact ⟨rfl, by simp, Or.inl rfl⟩
  | cons byte rest ih =>
      simp only [scanStatus] at scanned
      split at scanned
      · rename_i digit
        obtain ⟨⟨more, behind⟩, tail, same⟩ := Option.map_eq_some_iff.mp scanned
        cases same
        obtain ⟨split, digits, ends⟩ := ih tail
        exact ⟨by rw [split]; rfl, List.forall_mem_cons.mpr ⟨digit, digits⟩, ends⟩
      · split at scanned
        · rename_i blank
          cases scanned
          exact ⟨rfl, by simp, Or.inr ⟨rest, by rw [blank]⟩⟩
        · cases scanned

theorem scanReason_split {s phrase left : List Byte}
    (scanned : scanReason s = some (phrase, left)) :
    s = phrase ++ left ∧ (∀ byte ∈ phrase, isReason byte = true) ∧
      ((∃ rest, left = 13 :: 10 :: rest) ∨ left.length = 1 ∨ phrase = []) := by
  induction s using scanReason.induct generalizing phrase with
  | case1 byte other rest ends =>
      simp only [scanReason, if_pos ends] at scanned
      cases scanned
      exact ⟨rfl, by simp, Or.inl ⟨rest, by rw [ends.1, ends.2]⟩⟩
  | case2 byte other rest inside legal ih =>
      simp only [scanReason, if_neg inside, if_pos legal] at scanned
      obtain ⟨⟨more, behind⟩, tail, same⟩ := Option.map_eq_some_iff.mp scanned
      cases same
      obtain ⟨split, letters, ends⟩ := ih tail
      refine ⟨by rw [split]; rfl, List.forall_mem_cons.mpr ⟨legal, letters⟩, ?_⟩
      · rcases ends with crlf_ | one | none_
        · exact Or.inl crlf_
        · exact Or.inr (Or.inl one)
        · -- the recursive call had a byte left
          cases rest with
          | nil =>
              rw [scanReason] at tail
              · cases tail
                exact Or.inr (Or.inl rfl)
              · simp
          | cons next others =>
              rw [none_] at tail
              simp only [scanReason] at tail
              split at tail
              · rename_i ended
                cases tail
                exact Or.inl ⟨others, by rw [ended.1, ended.2]⟩
              · split at tail
                · obtain ⟨_, _, impossible⟩ := Option.map_eq_some_iff.mp tail
                  cases impossible
                · cases tail
  | case3 byte other rest inside illegal =>
      simp only [scanReason, if_neg inside] at scanned
      rw [if_neg illegal] at scanned
      cases scanned
  | case4 short few =>
      rw [scanReason] at scanned
      · cases scanned
        exact ⟨rfl, by simp, Or.inr (Or.inr rfl)⟩
      · exact few

theorem statusLine_split {s left phrase : List Byte} {code : Nat}
    (accepted : statusLine s = .ok (code, phrase, left)) :
    ∃ line, line ≠ [] ∧ Clean 13 10 line ∧ s = line ++ 13 :: 10 :: left := by
  unfold statusLine at accepted
  split at accepted
  · cases accepted
  · rename_i versioned
    rw [ne_eq, not_not] at versioned
    split at accepted
    · cases accepted
    · rename_i digits behind scanned
      split at accepted
      · cases accepted
      · rename_i full
        rw [not_or] at full
        split at accepted
        · cases accepted
        · rename_i reason after read
          split at accepted
          · cases accepted
          · rename_i proper
            rw [not_or] at proper
            cases accepted
            obtain ⟨first, digits_, ends⟩ := scanStatus_split scanned
            obtain ⟨second, phrase_, stops⟩ := scanReason_split read
            obtain ⟨rest, blank⟩ := ends.resolve_left full.2
            rw [blank] at first second
            simp only [List.drop_succ_cons, List.drop_zero] at second
            rcases stops with ⟨more, stop⟩ | one | none_
            · refine ⟨version ++ (digits ++ space :: phrase), by simp [version, text], ?_, ?_⟩
              · apply clean_of_absent
                simp only [List.mem_append, List.mem_cons, not_or]
                exact ⟨by decide, absent_of_kind digits_ (by decide), by decide,
                  absent_of_kind phrase_ (by decide)⟩
              · rw [← List.take_append_drop 9 s, versioned, first, second, stop]
                simp
            · exact absurd one proper.2
            · exact absurd none_ proper.1

end StatusLine

section Header

theorem scanKey_split {s key left : List Byte} (scanned : scanKey s = some (key, left)) :
    s = key ++ left ∧ (∀ byte ∈ key, isKey byte = true) ∧
      (left = [] ∨ ∃ rest, left = 58 :: rest) := by
  induction s generalizing key with
  | nil =>
      cases scanned
      exact ⟨rfl, by simp, Or.inl rfl⟩
  | cons byte rest ih =>
      simp only [scanKey] at scanned
      split at scanned
      · rename_i legal
        obtain ⟨⟨more, behind⟩, tail, same⟩ := Option.map_eq_some_iff.mp scanned
        cases same
        obtain ⟨split, letters, ends⟩ := ih tail
        exact ⟨by rw [split]; rfl, List.forall_mem_cons.mpr ⟨legal, letters⟩, ends⟩
      · split at scanned
        · rename_i colon
          cases scanned
          exact ⟨rfl, by simp, Or.inr ⟨rest, by rw [colon]⟩⟩
        · cases scanned

theorem scanValue_split (s : List Byte) :
    s = (scanValue s).1 ++ (scanValue s).2 ∧ Clean 13 10 (scanValue s).1 ∧
      ((scanValue s).2.length ≤ 1 ∨ ∃ rest, (scanValue s).2 = 13 :: 10 :: rest) := by
  induction s using scanValue.induct with
  | case1 byte other rest ends =>
      simp only [scanValue, if_pos ends]
      exact ⟨rfl, trivial, Or.inr ⟨rest, by rw [ends.1, ends.2]⟩⟩
  | case2 byte other rest inside ih =>
      simp only [scanValue, if_neg inside]
      obtain ⟨split, clean, ends⟩ := ih
      refine ⟨by rw [List.cons_append, ← split], ⟨?_, clean⟩, ends⟩
      rintro ⟨first, second⟩
      -- the byte behind is the next one of the value, or the CR of its end
      cases value : (scanValue (other :: rest)).1 with
      | nil =>
          rw [value] at second
          exact absurd second (by decide)
      | cons head tail =>
          rw [value] at split second
          have same : other = head := by simpa using congrArg List.head? split
          refine inside ⟨first, ?_⟩
          rw [same]
          simpa using second
  | case3 short few =>
      rw [scanValue]
      · refine ⟨rfl, trivial, Or.inl ?_⟩
        cases short with
        | nil => simp
        | cons byte rest =>
            cases rest with
            | nil => simp
            | cons other others => exact absurd rfl (few byte other others)
      · exact few

theorem headerLine_split {needs : Field → Bool} {s left : List Byte} {fields after : Fields}
    (accepted : headerLine needs s fields = some (.ok (left, after))) (more : left ≠ []) :
    ∃ line, line ≠ [] ∧ Clean 13 10 line ∧ s = line ++ 13 :: 10 :: left := by
  unfold headerLine at accepted
  split at accepted
  · cases accepted
  · rename_i key behind scanned
    split at accepted
    · cases accepted
    · rename_i nonempty
      dsimp only at accepted
      split at accepted
      · cases accepted
      · split at accepted
        · cases accepted
        · cases accepted
          obtain ⟨first, key_, ends⟩ := scanKey_split scanned
          rcases ends with none_ | ⟨rest, colon⟩
          · rw [none_] at more
            simp [scanValue] at more
          · rw [colon] at first more
            simp only [List.drop_succ_cons, List.drop_zero] at more
            obtain ⟨second, clean, stops⟩ :=
              scanValue_split (rest.dropWhile fun byte => byte = space)
            rcases stops with short | ⟨others, stop⟩
            · exact absurd (List.drop_eq_nil_iff.mpr (by omega)) more
            · refine ⟨key ++ (58 :: rest.takeWhile (fun byte => byte = space) ++
                  (scanValue (rest.dropWhile fun byte => byte = space)).1), by simp [nonempty],
                clean_append (absent_of_kind key_ (by decide)) (clean_append ?_ clean), ?_⟩
              · rw [List.mem_cons, not_or]
                refine ⟨by decide, fun member => ?_⟩
                have blank := List.mem_takeWhile_imp member
                exact absurd blank (by decide)
              · rw [colon]
                simp only [List.drop_succ_cons, List.drop_zero]
                rw [stop] at second ⊢
                have split : rest = rest.takeWhile (fun byte => byte = space) ++
                    rest.dropWhile (fun byte => byte = space) :=
                  List.takeWhile_append_dropWhile.symm
                rw [second] at split
                rw [first]
                conv_lhs => rw [split]
                simp

theorem headerLoop_split {needs : Field → Bool} {fuel : Nat} {s left : List Byte}
    {fields after : Fields}
    (accepted : headerLoop needs fuel s fields = some (.ok (left, after))) :
    ∃ lines, (∀ line ∈ lines, line ≠ [] ∧ Clean 13 10 line) ∧ s = page 13 10 lines ++ left := by
  induction fuel generalizing s fields with
  | zero => cases accepted
  | succ fuel ih =>
      simp only [headerLoop] at accepted
      split at accepted
      · cases accepted
      · split at accepted
        · rename_i last
          cases accepted
          refine ⟨[], by simp, ?_⟩
          conv_lhs => rw [← List.take_append_drop 2 s, last]
          rfl
        · split at accepted
          · rename_i behind between line_
            obtain ⟨lines, clean, split⟩ := ih accepted
            obtain ⟨line, nonempty, own, whole⟩ := headerLine_split line_ (by simp [split, page])
            refine ⟨line :: lines, ?_, ?_⟩
            · intro other member
              rcases List.mem_cons.mp member with rfl | later
              · exact ⟨nonempty, own⟩
              · exact clean other later
            · rw [page_cons, whole, split]
              simp
          · rename_i other
            exact absurd accepted (other left after)

/-- A head that is accepted is a page: a status line, fields and an empty line. -/
theorem httpRspParse_page {needs : Field → Bool} {s : List Byte} {head : Head}
    (accepted : httpRspParse needs s = some (.ok head)) :
    ∃ lines, lines ≠ [] ∧ (∀ line ∈ lines, line ≠ [] ∧ Clean 13 10 line) ∧
      s = page 13 10 lines := by
  unfold httpRspParse at accepted
  split at accepted
  · cases accepted
  · rename_i status
    split at accepted
    · cases accepted
    · cases accepted
    · rename_i fields
      split at accepted
      · cases accepted
      · rename_i all
        rw [ne_eq, not_not] at all
        obtain ⟨line, nonempty, own, whole⟩ := statusLine_split status
        obtain ⟨lines, clean, split⟩ := headerLoop_split fields
        refine ⟨line :: lines, by simp, ?_, ?_⟩
        · intro other member
          rcases List.mem_cons.mp member with rfl | later
          · exact ⟨nonempty, own⟩
          · exact clean other later
        · rw [page_cons, whole, split, all, List.append_nil]

/-- What `recv_till` finds of an accepted head is the whole head. -/
theorem head_end {needs : Field → Bool} {s : List Byte} {head : Head} (more : List Byte)
    (accepted : httpRspParse needs s = some (.ok head)) :
    firstEnd [13, 10, 13, 10] (s ++ more) = some s.length := by
  obtain ⟨lines, some_, clean, rfl⟩ := httpRspParse_page accepted
  exact page_end (by decide) more some_ clean

end Header

section Chunk

/-- A size line: digits, and an extension that starts with a semicolon. -/
structure SizeLine where
  digits : List Byte
  extension : List Byte
  nonempty : digits ≠ []
  hex : ∀ byte ∈ digits, isHex byte = true
  started : extension = [] ∨ extension.head? = some 59
  clean : Clean 13 10 extension

namespace SizeLine

def bytes (line : SizeLine) : List Byte := line.digits ++ line.extension ++ crlf

def size (line : SizeLine) : Nat := hexadecimal line.digits

theorem digits_clean (line : SizeLine) : (13 : Byte) ∉ line.digits :=
  absent_of_kind line.hex (by decide)

theorem bytes_end (line : SizeLine) (more : List Byte) :
    firstEnd [13, 10] (line.bytes ++ more) = some line.bytes.length := by
  have ends := line_end more (clean_append line.digits_clean line.clean)
  simpa [bytes, crlf, Nat.add_assoc] using ends

end SizeLine

theorem scanSize_digits {digits rest : List Byte} (hex : ∀ byte ∈ digits, isHex byte = true)
    (stop : ∃ other more, rest = 13 :: 10 :: more ∨ rest = 59 :: other :: more) :
    scanSize (digits ++ rest) = some (digits, rest) := by
  induction digits with
  | nil =>
      obtain ⟨other, more, rfl | rfl⟩ := stop
      · simp [scanSize]
      · simp [scanSize]
  | cons byte others ih =>
      have own := hex byte (by simp)
      have tail := ih fun other member => hex other (by simp [member])
      have unended : ¬((byte = 13 ∧ (others ++ rest).head? = some 10) ∨ byte = 59) := by
        rintro (⟨rfl, -⟩ | rfl) <;> exact absurd own (by decide)
      cases next : others ++ rest with
      | nil =>
          obtain ⟨other, more, rfl | rfl⟩ := stop <;> simp at next
      | cons other more =>
          rw [next] at unended tail
          rw [List.cons_append, next, scanSize]
          simp only [List.head?_cons, Option.some.injEq] at unended
          rw [if_neg unended, if_pos own, tail]
          rfl

theorem scanSize_line (line : SizeLine) :
    scanSize line.bytes = some (line.digits, line.extension ++ crlf) := by
  have stop : ∃ other more, line.extension ++ crlf = 13 :: 10 :: more ∨
      line.extension ++ crlf = 59 :: other :: more := by
    rcases line.started with none_ | some_
    · exact ⟨0, [], Or.inl (by simp [none_, crlf])⟩
    · cases extension : line.extension with
      | nil => simp [extension] at some_
      | cons first others =>
          rw [extension, List.head?_cons, Option.some.injEq] at some_
          rw [some_]
          cases others with
          | nil => exact ⟨13, [10], Or.inr (by simp [crlf])⟩
          | cons second rest => exact ⟨second, rest ++ crlf, Or.inr (by simp)⟩
  rw [SizeLine.bytes, List.append_assoc]
  exact scanSize_digits line.hex stop

theorem httpChunkParse_line (line : SizeLine) :
    httpChunkParse line.bytes = .ok (saturate line.size) := by
  have long : (line.extension ++ crlf).length ≠ 1 := by
    simp only [List.length_append, crlf, List.length_cons, List.length_nil]
    omega
  unfold httpChunkParse
  rw [scanSize_line]
  simp only [line.nonempty, long, or_self, if_false]
  rfl

theorem line_unique {line other : SizeLine} {rest more : List Byte}
    (same : line.bytes ++ rest = other.bytes ++ more) :
    line.size = other.size ∧ rest = more := by
  have length : line.bytes.length = other.bytes.length := by
    have ends := line.bytes_end rest
    rw [same, other.bytes_end more] at ends
    exact (Option.some.inj ends).symm
  obtain ⟨bytes, behind⟩ := List.append_inj same length
  refine ⟨?_, behind⟩
  have scanned := scanSize_line line
  rw [bytes, scanSize_line other] at scanned
  have digits : other.digits = line.digits := congrArg Prod.fst (Option.some.inj scanned)
  simp only [SizeLine.size, digits]

theorem scanSize_split {s digits left : List Byte} (scanned : scanSize s = some (digits, left)) :
    s = digits ++ left ∧ (∀ byte ∈ digits, isHex byte = true) ∧
      (left.length ≤ 1 ∨ (∃ more, left = 13 :: 10 :: more) ∨ left.head? = some 59) := by
  induction s using scanSize.induct generalizing digits with
  | case1 byte other rest ends =>
      simp only [scanSize, if_pos ends] at scanned
      cases scanned
      refine ⟨rfl, by simp, Or.inr ?_⟩
      rcases ends with ⟨rfl, rfl⟩ | rfl
      · exact Or.inl ⟨rest, rfl⟩
      · exact Or.inr rfl
  | case2 byte other rest inside legal ih =>
      simp only [scanSize, if_neg inside, if_pos legal] at scanned
      obtain ⟨⟨more, behind⟩, tail, same⟩ := Option.map_eq_some_iff.mp scanned
      cases same
      obtain ⟨split, hex, ends⟩ := ih tail
      refine ⟨by rw [split]; rfl, ?_, ends⟩
      intro digit member
      rcases List.mem_cons.mp member with rfl | later
      · exact legal
      · exact hex digit later
  | case3 byte other rest inside illegal =>
      simp only [scanSize, if_neg inside] at scanned
      rw [if_neg illegal] at scanned
      cases scanned
  | case4 short few =>
      rw [scanSize] at scanned
      · cases scanned
        refine ⟨rfl, by simp, Or.inl ?_⟩
        cases left with
        | nil => simp
        | cons byte rest =>
            cases rest with
            | nil => simp
            | cons other others => exact absurd rfl (few byte other others)
      · exact few

/-- The size that a line announces, before it is cut at the largest `size_t`. -/
def announcedSize (s : List Byte) : Nat :=
  match scanSize s with
  | some (digits, _) => hexadecimal digits
  | none => 0

theorem sizeLine_of_parse {s : List Byte} {chunkLen : Nat}
    (found : firstEnd [13, 10] s = some s.length) (parsed : httpChunkParse s = .ok chunkLen) :
    ∃ line : SizeLine, line.bytes = s ∧ line.size = announcedSize s ∧
      chunkLen = saturate line.size := by
  unfold httpChunkParse at parsed
  split at parsed
  · cases parsed
  · rename_i digits left scanned
    split at parsed
    · cases parsed
    · rename_i proper
      rw [not_or] at proper
      cases parsed
      obtain ⟨split, hex, ends⟩ := scanSize_split scanned
      obtain ⟨start, position, -, occurs, first⟩ := firstEnd_some.mp found
      obtain ⟨more, tail⟩ := occurs_two.mp occurs
      have extent := congrArg List.length tail
      simp only [List.length_drop, List.length_cons, List.length_nil] at extent position
      obtain rfl : more = [] := List.length_eq_zero_iff.mp (by omega)
      -- the line without its CRLF
      have whole : s = s.take start ++ [13, 10] := by
        conv_lhs => rw [← List.take_append_drop start s, tail]
      have clean : Clean 13 10 (s.take start) := by
        apply clean_of_start
        intro earlier inside
        rw [← whole]
        rw [List.length_take] at inside
        exact first earlier (by omega)
      have before : digits.length ≤ start := by
        by_contra behind
        have symbol : (13 : Byte) ∈ digits := by
          have here : s[start]? = some 13 := by
            have := congrArg List.head? tail
            rwa [List.head?_drop] at this
          rw [split, List.getElem?_append_left (by omega)] at here
          exact List.mem_of_getElem? here
        exact absurd (hex 13 symbol) (by decide)
      have extension : left = (s.drop digits.length).take (start - digits.length) ++ [13, 10] := by
        have dropped : s.drop digits.length = left := by
          conv_lhs => rw [split]
          exact List.drop_left
        have again := congrArg (List.drop digits.length) whole
        rw [List.drop_append_of_le_length (by rw [List.length_take]; omega), List.drop_take,
          dropped] at again
        rw [dropped]
        exact again
      have same : s.take start = digits ++ (s.drop digits.length).take (start - digits.length) := by
        have equal : digits ++ (s.drop digits.length).take (start - digits.length) ++ [13, 10] =
            s.take start ++ [13, 10] := by
          rw [List.append_assoc, ← extension, ← split, ← whole]
        exact (List.append_cancel_right equal).symm
      rw [same] at clean
      refine ⟨{
        digits := digits
        extension := (s.drop digits.length).take (start - digits.length)
        nonempty := proper.1
        hex := hex
        started := ?_
        clean := clean_suffix clean }, ?_, ?_, rfl⟩
      · cases middle : (s.drop digits.length).take (start - digits.length) with
        | nil => exact Or.inl rfl
        | cons byte others =>
            rw [middle] at extension
            refine Or.inr ?_
            rcases ends with short | ⟨rest, stop⟩ | stop
            · rw [extension] at short
              simp at short
            · -- a CRLF before the last one
              have early : Occurs [13, 10] s digits.length := by
                refine occurs_two.mpr ⟨rest, ?_⟩
                conv_lhs => rw [split]
                rw [List.drop_left, stop]
              have later : digits.length < start := by
                have length := congrArg List.length middle
                rw [List.length_take] at length
                simp only [List.length_cons] at length
                omega
              exact absurd early (first _ later)
            · rw [extension] at stop
              simpa using stop
      · simp only [SizeLine.bytes, crlf]
        rw [← same, ← whole]
      · simp only [SizeLine.size, announcedSize, scanned]

end Chunk

end Cocoflow.HttpHead
