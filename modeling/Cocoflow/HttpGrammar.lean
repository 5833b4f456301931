import Mathlib.Algebra.Group.Nat.Defs
import Mathlib.Data.List.Basic
import Mathlib.Data.List.TakeWhile
import Cocoflow.TcpConnection
import Cocoflow.FirstMatch
import Cocoflow.TextLines
import Cocoflow.HttpResponse
import Cocoflow.HttpHead

/-!
The grammar of a response head, and that `http_rsp_parse` accepts it and nothing else. A
reading cuts a buffer into a status line, the lines of the fields and the last CRLF; what the
parser gives back are the parts of the reading.
-/

namespace Cocoflow.HttpGrammar

open TcpConnection TextLines HttpResponse HttpHead

/-- The field that a name stands for, whatever the case of its letters. -/
def fieldOf (name : List Byte) : Field :=
  ((fieldSeekArrays.find? fun unit => text unit.1 = name.map lowercase).map Prod.snd).getD
    .unknown

/-- `1*(ALNUM / "-") ":" *SP value CRLF`. -/
structure FieldLine where
  name : List Byte
  blanks : Nat
  value : List Byte
  nonempty : name ≠ []
  letters : ∀ byte ∈ name, isKey byte = true
  trimmed : value.head? ≠ some space
  clean : Clean 13 10 value

namespace FieldLine

def bytes (line : FieldLine) : List Byte :=
  line.name ++ 58 :: (List.replicate line.blanks space ++ (line.value ++ crlf))

def unended (line : FieldLine) : List Byte :=
  line.name ++ 58 :: (List.replicate line.blanks space ++ line.value)

def field (line : FieldLine) : Field := fieldOf line.name

def Legal (line : FieldLine) : Prop :=
  (line.field = .contentLength →
    line.value ≠ [] ∧ ∀ byte ∈ line.value, isDigit byte = true) ∧
  (line.field = .transferEncoding → line.value = text "chunked")

instance (line : FieldLine) : Decidable line.Legal :=
  inferInstanceAs (Decidable (_ ∧ _))

def entry (needs : Field → Bool) (line : FieldLine) : Option (Field × List Byte) :=
  if line.field ≠ .unknown ∧ needs line.field = true ∧ line.value ≠ [] then
    some (line.field, line.value)
  else none

end FieldLine

/-- `"HTTP/1.1 " 3DIGIT SP 1*(ALPHA / SP / "-") CRLF`, lines of fields, and `CRLF`. -/
structure Reading where
  digits : List Byte
  phrase : List Byte
  lines : List FieldLine
  three : digits.length = 3
  decimal : ∀ byte ∈ digits, isDigit byte = true
  nonempty : phrase ≠ []
  letters : ∀ byte ∈ phrase, isReason byte = true

namespace Reading

def bytes (reading : Reading) : List Byte :=
  version ++ (reading.digits ++ space :: (reading.phrase ++ (crlf ++
    (reading.lines.flatMap FieldLine.bytes ++ crlf))))

def entries (needs : Field → Bool) (reading : Reading) : Fields :=
  reading.lines.filterMap (FieldLine.entry needs)

/-- No needed field occurs twice with a value. -/
def Distinct (needs : Field → Bool) (reading : Reading) : Prop :=
  ((reading.entries needs).map Prod.fst).Nodup

def head (needs : Field → Bool) (reading : Reading) : Head where
  statusCode := HttpResponse.decimal reading.digits
  reasonPhrase := reading.phrase
  headerFields := reading.entries needs

end Reading

section Names

theorem dropWhile_sorted {units : List (String × Field)} (name : List Byte)
    (sorted : units.Pairwise fun one other => text one.1 < text other.1) :
    (match units.dropWhile fun unit => text unit.1 < name with
      | [] => Field.unknown
      | unit :: _ => if text unit.1 = name then unit.2 else .unknown) =
    ((units.find? fun unit => text unit.1 = name).map Prod.snd).getD .unknown := by
  induction units with
  | nil => rfl
  | cons unit others ih =>
      rw [List.pairwise_cons] at sorted
      by_cases same : text unit.1 = name
      · simp [same]
      · by_cases less : text unit.1 < name
        · simpa [less, same] using ih sorted.2
        · -- the later names are greater still
          have absent : others.find? (fun unit => text unit.1 = name) = none := by
            rw [List.find?_eq_none]
            intro later member equal
            rw [decide_eq_true_eq] at equal
            rw [← equal] at less
            exact less (sorted.1 later member)
          simp [less, same, absent]

theorem fieldSeekArrays_sorted :
    fieldSeekArrays.Pairwise fun one other => text one.1 < text other.1 := by
  decide +kernel

theorem checkField_find (name : List Byte) : checkField name =
    ((fieldSeekArrays.find? fun unit => text unit.1 = name).map Prod.snd).getD .unknown :=
  dropWhile_sorted name fieldSeekArrays_sorted

theorem fieldOf_long {name : List Byte} (long : fieldNameMaxLen < name.length) :
    fieldOf name = .unknown := by
  have short : ∀ unit ∈ fieldSeekArrays, (text unit.1).length ≤ fieldNameMaxLen := by
    decide +kernel
  have absent : fieldSeekArrays.find? (fun unit => text unit.1 = name.map lowercase) = none := by
    rw [List.find?_eq_none]
    intro unit member equal
    rw [decide_eq_true_eq] at equal
    have fits := short unit member
    rw [equal, List.length_map] at fits
    omega
  simp [fieldOf, absent]

end Names

section Values

variable {needs : Field → Bool}

theorem legalValue_iff (line : FieldLine) :
    legalValue line.field line.value = true ↔ line.Legal := by
  unfold legalValue FieldLine.Legal
  cases line.field <;> simp

/-- What `http_rsp_parse` does with one field, in the words of the grammar. -/
theorem putField_line (line : FieldLine) (fields : Fields) :
    putField needs line.name line.value fields =
      if line.Legal then
        match line.entry needs with
        | none => .ok fields
        | some entry =>
            if (fields.value entry.1).isSome then .error (-7) else .ok (fields ++ [entry])
      else .error (-6) := by
  unfold putField
  by_cases long : fieldNameMaxLen < line.name.length
  · have unknown : line.field = .unknown := fieldOf_long long
    simp [long, FieldLine.Legal, FieldLine.entry, unknown]
  · have same : checkField (line.name.map lowercase) = line.field :=
      checkField_find (line.name.map lowercase)
    rw [if_neg long]
    simp only [same]
    by_cases unknown : line.field = .unknown
    · simp [FieldLine.Legal, FieldLine.entry, unknown]
    · by_cases legal : line.Legal
      · have accepted := (legalValue_iff line).mpr legal
        cases wanted : needs line.field with
        | false => simp [unknown, legal, accepted, FieldLine.entry, wanted]
        | true =>
            cases value : line.value with
            | nil => simp [unknown, legal, ← value, accepted, FieldLine.entry]
            | cons byte rest =>
                have accepted_ : legalValue line.field (byte :: rest) = true := by
                  rw [← value]
                  exact accepted
                simp [unknown, legal, accepted_, FieldLine.entry, wanted, value]
      · have refused : legalValue line.field line.value = false := by
          rw [← Bool.not_eq_true]
          exact fun accepted => legal ((legalValue_iff line).mp accepted)
        simp [unknown, legal, refused]

end Values

section Scanning

theorem scanStatus_complete {digits rest : List Byte}
    (decimal : ∀ byte ∈ digits, isDigit byte = true) :
    scanStatus (digits ++ space :: rest) = some (digits, space :: rest) := by
  induction digits with
  | nil => rfl
  | cons byte others ih =>
      obtain ⟨digit, later⟩ := List.forall_mem_cons.mp decimal
      simp [scanStatus, digit, ih later]

theorem scanReason_complete {phrase rest : List Byte}
    (letters : ∀ byte ∈ phrase, isReason byte = true) :
    scanReason (phrase ++ 13 :: 10 :: rest) = some (phrase, 13 :: 10 :: rest) := by
  induction phrase with
  | nil => simp [scanReason]
  | cons byte others ih =>
      obtain ⟨legal, later⟩ := List.forall_mem_cons.mp letters
      have inside : byte ≠ 13 := by
        rintro rfl
        exact absurd legal (by decide)
      have tail := ih later
      cases next : others ++ 13 :: 10 :: rest with
      | nil => simp at next
      | cons other more =>
          rw [next] at tail
          simp [next, scanReason, inside, legal, tail]

theorem scanKey_complete {name rest : List Byte} (letters : ∀ byte ∈ name, isKey byte = true) :
    scanKey (name ++ 58 :: rest) = some (name, 58 :: rest) := by
  induction name with
  | nil => simp [scanKey, isKey, isDigit, isLower, isUpper]
  | cons byte others ih =>
      obtain ⟨legal, later⟩ := List.forall_mem_cons.mp letters
      simp [scanKey, legal, ih later]

theorem scanValue_complete {value rest : List Byte} (clean : Clean 13 10 value) :
    scanValue (value ++ 13 :: 10 :: rest) = (value, 13 :: 10 :: rest) := by
  induction value with
  | nil => simp [scanValue]
  | cons byte others ih =>
      have tail := ih clean.2
      have inside := clean.1
      cases next : others ++ 13 :: 10 :: rest with
      | nil => simp at next
      | cons other more =>
          rw [next] at tail
          have first : (others ++ [13, 10]).head? = some other := by
            have same := congrArg List.head? next
            cases others with
            | nil => simpa using same
            | cons head tail => simpa using same
          rw [first, Option.some.injEq] at inside
          simp [next, scanValue, inside, tail]

theorem dropWhile_blanks (count : Nat) {value : List Byte} (trimmed : value.head? ≠ some space) :
    (List.replicate count space ++ value).dropWhile (fun byte => byte = space) = value := by
  induction count with
  | zero =>
      cases value with
      | nil => rfl
      | cons byte others =>
          rw [List.head?_cons, ne_eq, Option.some.injEq] at trimmed
          simp [trimmed]
  | succ count ih => simpa [List.replicate_succ] using ih

theorem trimmed_append (line : FieldLine) {rest : List Byte}
    (ends : line.value = [] → rest.head? ≠ some space) :
    (line.value ++ rest).head? ≠ some space := by
  have trimmed := line.trimmed
  cases value : line.value with
  | nil => exact ends value
  | cons byte others =>
      rw [value] at trimmed
      exact trimmed

end Scanning

section Lines

variable {needs : Field → Bool}

theorem bytes_unended (line : FieldLine) (rest : List Byte) :
    line.bytes ++ rest = line.unended ++ (crlf ++ rest) := by
  simp [FieldLine.bytes, FieldLine.unended]

theorem headerLine_line (line : FieldLine) (rest : List Byte) (fields : Fields) :
    headerLine needs (line.bytes ++ rest) fields =
      if line.value.getLast? = some space then none
      else match putField needs line.name line.value fields with
      | .error ret => some (.error ret)
      | .ok fields => some (.ok (rest, fields)) := by
  have shape : line.bytes ++ rest = line.name ++ 58 ::
      (List.replicate line.blanks space ++ (line.value ++ 13 :: 10 :: rest)) := by
    simp [FieldLine.bytes, crlf]
  unfold headerLine
  rw [shape, scanKey_complete line.letters]
  simp only [if_neg line.nonempty, List.drop_succ_cons, List.drop_zero]
  rw [dropWhile_blanks line.blanks (trimmed_append line fun _ => by simp [space]),
    scanValue_complete line.clean]
  rfl

theorem dropWhile_trimmed (rest : List Byte) :
    (rest.dropWhile fun byte => byte = space).head? ≠ some space := by
  induction rest with
  | nil => simp
  | cons byte others ih =>
      by_cases blank : byte = space
      · simpa [blank] using ih
      · simp [blank]

theorem takeWhile_blanks (rest : List Byte) :
    rest.takeWhile (fun byte => byte = space) =
      List.replicate (rest.takeWhile fun byte => byte = space).length space := by
  rw [List.eq_replicate_iff]
  refine ⟨rfl, fun byte member => ?_⟩
  simpa using List.mem_takeWhile_imp member

theorem scanned_line {s name rest : List Byte} (scanned : scanKey s = some (name, 58 :: rest))
    (nonempty : name ≠ []) :
    ∃ line : FieldLine, line.name = name ∧
      line.value = (scanValue (rest.dropWhile fun byte => byte = space)).1 ∧
      s = line.unended ++ (scanValue (rest.dropWhile fun byte => byte = space)).2 := by
  obtain ⟨first, letters, -⟩ := scanKey_split scanned
  obtain ⟨second, clean, -⟩ := scanValue_split (rest.dropWhile fun byte => byte = space)
  refine ⟨{
    name := name
    blanks := (rest.takeWhile fun byte => byte = space).length
    value := (scanValue (rest.dropWhile fun byte => byte = space)).1
    nonempty := nonempty
    letters := letters
    trimmed := ?_
    clean := clean }, rfl, rfl, ?_⟩
  · intro blank
    have front := dropWhile_trimmed rest
    rw [second, List.head?_append, blank] at front
    exact front rfl
  · have whole : rest = rest.takeWhile (fun byte => byte = space) ++
        rest.dropWhile (fun byte => byte = space) :=
      List.takeWhile_append_dropWhile.symm
    rw [second] at whole
    simp only [FieldLine.unended]
    rw [← takeWhile_blanks, first]
    conv_lhs => rw [whole]
    simp

theorem headerLine_inv {s left : List Byte} {fields after : Fields}
    (accepted : headerLine needs s fields = some (.ok (left, after))) (more : left ≠ []) :
    ∃ line : FieldLine, s = line.bytes ++ left ∧ line.value.getLast? ≠ some space ∧
      putField needs line.name line.value fields = .ok after := by
  unfold headerLine at accepted
  split at accepted
  · cases accepted
  · rename_i name behind scanned
    split at accepted
    · cases accepted
    · rename_i nonempty
      dsimp only at accepted
      split at accepted
      · cases accepted
      · rename_i trimmed
        split at accepted
        · cases accepted
        · rename_i put
          cases accepted
          obtain ⟨-, -, ends⟩ := scanKey_split scanned
          rcases ends with none_ | ⟨rest, colon⟩
          · rw [none_] at more
            simp [scanValue] at more
          · rw [colon] at scanned more trimmed put ⊢
            simp only [List.drop_succ_cons, List.drop_zero] at more trimmed put ⊢
            obtain ⟨line, named, valued, whole⟩ := scanned_line scanned nonempty
            obtain ⟨-, -, stops⟩ := scanValue_split (rest.dropWhile fun byte => byte = space)
            rw [← valued] at trimmed put
            rw [← named] at put
            rcases stops with short | ⟨others, stop⟩
            · exact absurd (List.drop_eq_nil_iff.mpr (by omega)) more
            · refine ⟨line, ?_, trimmed, put⟩
              rw [whole, stop, bytes_unended]
              rfl

theorem value_isSome (fields : Fields) (field : Field) :
    (fields.value field).isSome = true ↔ field ∈ fields.map Prod.fst := by
  simp [Fields.value]

theorem unended_start (line : FieldLine) (tail : List Byte) :
    2 ≤ (line.unended ++ tail).length ∧ (line.unended ++ tail).take 2 ≠ crlf := by
  cases name : line.name with
  | nil => exact absurd name line.nonempty
  | cons byte others =>
      have legal := line.letters byte (by simp [name])
      constructor
      · simp only [FieldLine.unended, name, List.length_append, List.length_cons]
        omega
      · intro same
        have first := congrArg List.head? same
        simp only [FieldLine.unended, name, crlf, List.cons_append, List.take_succ_cons,
          List.head?_cons, Option.some.injEq] at first
        rw [first] at legal
        exact absurd legal (by decide)

theorem putField_ok {line : FieldLine} {fields after : Fields}
    (put : putField needs line.name line.value fields = .ok after) :
    line.Legal ∧ after = fields ++ (line.entry needs).toList ∧
      ((fields.map Prod.fst).Nodup → (after.map Prod.fst).Nodup) := by
  rw [putField_line] at put
  split at put
  · rename_i legal
    refine ⟨legal, ?_⟩
    cases added : line.entry needs with
    | none =>
        rw [added] at put
        cases put
        simp
    | some entry =>
        rw [added] at put
        dsimp only at put
        split at put
        · cases put
        · rename_i fresh
          cases put
          rw [value_isSome] at fresh
          refine ⟨rfl, fun distinct => ?_⟩
          rw [List.map_append, List.nodup_append]
          refine ⟨distinct, by simp, ?_⟩
          rintro field member other single rfl
          rw [List.map_singleton, List.mem_singleton] at single
          exact fresh (single ▸ member)
  · cases put

theorem putField_fresh {line : FieldLine} {fields : Fields} (legal : line.Legal)
    (distinct : ((fields ++ (line.entry needs).toList).map Prod.fst).Nodup) :
    putField needs line.name line.value fields = .ok (fields ++ (line.entry needs).toList) := by
  rw [putField_line, if_pos legal]
  cases added : line.entry needs with
  | none => simp
  | some entry =>
      have fresh : ¬(fields.value entry.1).isSome = true := by
        rw [value_isSome]
        intro member
        rw [added, Option.toList_some, List.map_append, List.nodup_append] at distinct
        exact distinct.2.2 entry.1 member entry.1 (by simp) rfl
      simp [fresh]

theorem headerLoop_append {lines : List FieldLine} {fuel : Nat} {fields : Fields}
    (rest : List Byte) (legal : ∀ line ∈ lines, line.Legal)
    (trimmed : ∀ line ∈ lines, line.value.getLast? ≠ some space)
    (distinct : ((fields ++ lines.filterMap (FieldLine.entry needs)).map Prod.fst).Nodup) :
    headerLoop needs (lines.length + fuel) (lines.flatMap FieldLine.bytes ++ rest) fields =
      headerLoop needs fuel rest (fields ++ lines.filterMap (FieldLine.entry needs)) := by
  -- by induction on the lines: each turn of the loop adds what its line puts
  induction lines generalizing fields with
  | nil => simp
  | cons line others ih =>
      have added : fields ++ (line :: others).filterMap (FieldLine.entry needs) =
          fields ++ (line.entry needs).toList ++ others.filterMap (FieldLine.entry needs) := by
        cases entry : line.entry needs <;> simp [entry]
      rw [added] at distinct ⊢
      have own : ((fields ++ (line.entry needs).toList).map Prod.fst).Nodup := by
        rw [List.map_append] at distinct
        exact (List.nodup_append.mp distinct).1
      have put := putField_fresh (legal line (by simp)) own
      obtain ⟨long, start⟩ :=
        unended_start line (crlf ++ (others.flatMap FieldLine.bytes ++ rest))
      rw [← bytes_unended] at long start
      rw [List.flatMap_cons, List.append_assoc, List.length_cons, Nat.add_right_comm, headerLoop,
        if_neg (by omega), if_neg start, headerLine_line, if_neg (trimmed line (by simp)), put]
      exact ih (fun other member => legal other (by simp [member]))
        (fun other member => trimmed other (by simp [member])) distinct

theorem headerLoop_lines {lines : List FieldLine} {fuel : Nat} {fields : Fields}
    (enough : lines.length < fuel) (legal : ∀ line ∈ lines, line.Legal)
    (trimmed : ∀ line ∈ lines, line.value.getLast? ≠ some space)
    (distinct : ((fields ++ lines.filterMap (FieldLine.entry needs)).map Prod.fst).Nodup) :
    headerLoop needs fuel (lines.flatMap FieldLine.bytes ++ crlf) fields =
      some (.ok ([], fields ++ lines.filterMap (FieldLine.entry needs))) := by
  have turns : fuel = lines.length + ((fuel - lines.length - 1) + 1) := by omega
  rw [turns, headerLoop_append crlf legal trimmed distinct]
  simp [headerLoop, crlf]

theorem lines_length (lines : List FieldLine) :
    lines.length ≤ (lines.flatMap FieldLine.bytes).length := by
  induction lines with
  | nil => simp
  | cons line others ih =>
      obtain ⟨long, -⟩ := unended_start line (crlf ++ [])
      rw [← bytes_unended, List.append_nil] at long
      rw [List.flatMap_cons, List.length_append, List.length_cons]
      omega

theorem headerLoop_inv {fuel : Nat} {s left : List Byte} {fields after : Fields}
    (accepted : headerLoop needs fuel s fields = some (.ok (left, after))) :
    ∃ lines : List FieldLine, s = lines.flatMap FieldLine.bytes ++ (crlf ++ left) ∧
      (∀ line ∈ lines, line.Legal) ∧ (∀ line ∈ lines, line.value.getLast? ≠ some space) ∧
      after = fields ++ lines.filterMap (FieldLine.entry needs) ∧
      ((fields.map Prod.fst).Nodup → (after.map Prod.fst).Nodup) := by
  induction fuel generalizing s fields with
  | zero => cases accepted
  | succ fuel ih =>
      simp only [headerLoop] at accepted
      split at accepted
      · cases accepted
      · split at accepted
        · rename_i last
          cases accepted
          refine ⟨[], ?_, by simp, by simp, by simp, id⟩
          conv_lhs => rw [← List.take_append_drop 2 s, last]
          rfl
        · split at accepted
          · rename_i behind between line_
            obtain ⟨lines, split, legal, trimmed, entries, distinct⟩ := ih accepted
            obtain ⟨line, whole, own, put⟩ := headerLine_inv line_ (by simp [split, crlf])
            obtain ⟨ownLegal, ownEntry, ownDistinct⟩ := putField_ok put
            refine ⟨line :: lines, ?_, List.forall_mem_cons.mpr ⟨ownLegal, legal⟩,
              List.forall_mem_cons.mpr ⟨own, trimmed⟩, ?_, fun first => distinct (ownDistinct first)⟩
            · rw [whole, split]
              simp
            · rw [entries, ownEntry]
              cases entry : line.entry needs <;> simp [entry]
          · rename_i other
            exact absurd accepted (other left after)

end Lines

section Status

theorem statusLine_inv {s left phrase : List Byte} {code : Nat}
    (accepted : statusLine s = .ok (code, phrase, left)) :
    ∃ digits, digits.length = 3 ∧ (∀ byte ∈ digits, isDigit byte = true) ∧ phrase ≠ [] ∧
      (∀ byte ∈ phrase, isReason byte = true) ∧ code = decimal digits ∧
      s = version ++ (digits ++ space :: (phrase ++ (crlf ++ left))) := by
  unfold statusLine at accepted
  split at accepted
  · cases accepted
  · rename_i versioned
    rw [ne_eq, not_not] at versioned
    split at accepted
    · cases accepted
    · rename_i digits behind scanned
      split at accepted
      · cases accepted
      · rename_i full
        rw [not_or, ne_eq, not_not] at full
        split at accepted
        · cases accepted
        · rename_i reason after read
          split at accepted
          · cases accepted
          · rename_i proper
            rw [not_or] at proper
            cases accepted
            obtain ⟨first, digits_, ends⟩ := scanStatus_split scanned
            obtain ⟨second, letters, stops⟩ := scanReason_split read
            obtain ⟨rest, blank⟩ := ends.resolve_left full.2
            rw [blank] at first second
            simp only [List.drop_succ_cons, List.drop_zero] at second
            rcases stops with ⟨more, stop⟩ | one | none_
            · refine ⟨digits, full.1, digits_, proper.1, letters, rfl, ?_⟩
              rw [← List.take_append_drop 9 s, versioned, first, second, stop]
              simp [crlf]
            · exact absurd one proper.2
            · exact absurd none_ proper.1

theorem statusLine_complete {digits phrase left : List Byte} (three : digits.length = 3)
    (decimal_ : ∀ byte ∈ digits, isDigit byte = true) (nonempty : phrase ≠ [])
    (letters : ∀ byte ∈ phrase, isReason byte = true) :
    statusLine (version ++ (digits ++ space :: (phrase ++ (crlf ++ left)))) =
      .ok (decimal digits, phrase, left) := by
  have nine : version.length = 9 := by decide
  unfold statusLine
  rw [List.take_left' nine, List.drop_left' nine, scanStatus_complete decimal_]
  simp only [ne_eq, not_true_eq_false, if_false, three, List.cons_ne_nil, or_self,
    List.drop_succ_cons, List.drop_zero]
  rw [show crlf ++ left = 13 :: 10 :: left from rfl, scanReason_complete letters]
  simp [nonempty]

end Status

/-- `http_rsp_parse` returns 0 exactly on the readings of the grammar in which no needed field
occurs twice with a value and no value ends in a space, and gives back their parts. -/
theorem http_rsp_parse_grammar (needs : Field → Bool) (s : List Byte) (head : Head) :
    httpRspParse needs s = some (.ok head) ↔
      ∃ reading : Reading, reading.bytes = s ∧ (∀ line ∈ reading.lines, line.Legal) ∧
        reading.Distinct needs ∧ (∀ line ∈ reading.lines, line.value.getLast? ≠ some space) ∧
        head = reading.head needs := by
  constructor
  · intro accepted
    unfold httpRspParse at accepted
    split at accepted
    · cases accepted
    · rename_i status
      split at accepted
      · cases accepted
      · cases accepted
      · rename_i fields
        split at accepted
        · cases accepted
        · rename_i all
          rw [ne_eq, not_not] at all
          cases accepted
          obtain ⟨digits, three, decimal_, nonempty, letters, rfl, whole⟩ := statusLine_inv status
          obtain ⟨lines, split, legal, trimmed, entries, distinct⟩ := headerLoop_inv fields
          rw [List.nil_append] at entries
          refine ⟨⟨digits, _, lines, three, decimal_, nonempty, letters⟩, ?_, legal, ?_, trimmed, ?_⟩
          · rw [whole, split, all, List.append_nil]
            rfl
          · have nodup := distinct List.nodup_nil
            rw [entries] at nodup
            exact nodup
          · rw [entries]
            rfl
  · rintro ⟨reading, rfl, legal, distinct, trimmed, rfl⟩
    have status : statusLine reading.bytes = .ok (decimal reading.digits, reading.phrase,
        reading.lines.flatMap FieldLine.bytes ++ crlf) :=
      statusLine_complete reading.three reading.decimal reading.nonempty reading.letters
    have enough : reading.lines.length <
        (reading.lines.flatMap FieldLine.bytes ++ crlf).length + 1 := by
      have turns := lines_length reading.lines
      rw [List.length_append]
      omega
    have looped : headerLoop needs
        ((reading.lines.flatMap FieldLine.bytes ++ crlf).length + 1)
        (reading.lines.flatMap FieldLine.bytes ++ crlf) [] =
          some (.ok ([], [] ++ reading.lines.filterMap (FieldLine.entry needs))) :=
      headerLoop_lines enough legal trimmed distinct
    simp only [httpRspParse, status, looped, ne_eq, not_true_eq_false, if_false, List.nil_append]
    rfl

end Cocoflow.HttpGrammar
