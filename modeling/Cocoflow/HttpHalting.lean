import Mathlib.Data.List.Basic
import Mathlib.Data.List.TakeWhile
import Cocoflow.TcpConnection
import Cocoflow.TextLines
import Cocoflow.HttpResponse
import Cocoflow.HttpHead
import Cocoflow.HttpGrammar
import Cocoflow.HttpWalk

/-!
When `http_rsp_parse` returns. The walk over the indices computes what the parser over the
bytes that are left computes: at every point of the walk the rest of the parse is known, and a
step does not change it. The walk stops unless it comes to a value that ends in a space; the
grammar tells which buffers have one.
-/

namespace Cocoflow.HttpHalting

open TcpConnection TextLines HttpResponse HttpHead HttpGrammar HttpWalk

section Rest

variable (needs : Field → Bool)

/-- The bytes of a name in `field_name`; a name that does not fit leaves it empty. -/
def stored (key : List Byte) : List Byte :=
  if key.length ≤ fieldNameMaxLen then key.map lowercase else []

def insertField (cur : Field) (value : List Byte) (fields : Fields) : Except Int Fields :=
  if needs cur && !value.isEmpty then
    if (fields.value cur).isSome then .error (-7) else .ok (fields ++ [(cur, value)])
  else .ok fields

def putName (name value : List Byte) (fields : Fields) : Except Int Fields :=
  if name = [] ∨ checkField name = .unknown then .ok fields
  else if !legalValue (checkField name) value then .error (-6)
  else insertField needs (checkField name) value fields

def fieldsRest (left : List Byte) (head : Head) : Option (Except Int Head) :=
  match headerLoop needs (left.length + 1) left head.headerFields with
  | none => none
  | some (.error ret) => some (.error ret)
  | some (.ok (left, headerFields)) =>
      if left ≠ [] then some (.error (-4))
      else some (.ok { head with headerFields := headerFields })

def insertRest (put : Except Int Fields) (left : List Byte) (head : Head) :
    Option (Except Int Head) :=
  match put with
  | .error ret => some (.error ret)
  | .ok fields => fieldsRest needs left { head with headerFields := fields }

def valueRest (name value left : List Byte) (head : Head) : Option (Except Int Head) :=
  if value.getLast? = some space then none
  else insertRest needs (putName needs name value head.headerFields) (left.drop 2) head

def blanksRest (name left : List Byte) (head : Head) : Option (Except Int Head) :=
  let scanned := scanValue (left.dropWhile fun byte => byte = space)
  valueRest needs name scanned.1 scanned.2 head

def keyRest (key left : List Byte) (head : Head) : Option (Except Int Head) :=
  if key = [] then some (.error (-5)) else blanksRest needs (stored key) (left.drop 1) head

def reasonRest (phrase left : List Byte) (head : Head) : Option (Except Int Head) :=
  if phrase = [] ∨ left.length = 1 then some (.error (-3))
  else fieldsRest needs (left.drop 2) { head with reasonPhrase := phrase }

def statusRest (digits left : List Byte) (head : Head) : Option (Except Int Head) :=
  if digits.length ≠ 3 ∨ left = [] then some (.error (-2))
  else match scanReason (left.drop 1) with
  | none => some (.error (-3))
  | some (phrase, left) => reasonRest needs phrase left { head with statusCode := decimal digits }

def versionRest (s : List Byte) (head : Head) : Option (Except Int Head) :=
  if s.take 9 ≠ version then some (.error (-1))
  else match scanStatus (s.drop 9) with
  | none => some (.error (-2))
  | some (digits, left) => statusRest needs digits left head

end Rest

def head (walk : Walk) : Head where
  statusCode := walk.statusCode
  reasonPhrase := walk.reasonPhrase
  headerFields := walk.headerFields

/-- What the parse will give, from any point of the walk. -/
def outcome (needs : Field → Bool) (s : List Byte) (walk : Walk) : Option (Except Int Head) :=
  match walk.point with
  | .version => versionRest needs s (head walk)
  | .status =>
      match scanStatus (s.drop walk.i) with
      | none => some (.error (-2))
      | some (digits, left) => statusRest needs (slice s walk.bgn walk.i ++ digits) left (head walk)
  | .reason =>
      match scanReason (s.drop walk.i) with
      | none => some (.error (-3))
      | some (phrase, left) => reasonRest needs (slice s walk.bgn walk.i ++ phrase) left (head walk)
  | .fields => fieldsRest needs (s.drop walk.i) (head walk)
  | .key =>
      match scanKey (s.drop walk.i) with
      | none => some (.error (-5))
      | some (key, left) => keyRest needs (slice s walk.bgn walk.i ++ key) left (head walk)
  | .blanks => blanksRest needs walk.fieldName (s.drop walk.i) (head walk)
  | .value =>
      let scanned := scanValue (s.drop walk.i)
      valueRest needs walk.fieldName (slice s walk.bgn walk.i ++ scanned.1) scanned.2 (head walk)
  | .trim =>
      valueRest needs walk.fieldName (slice s walk.bgn walk.end_) (s.drop walk.i) (head walk)
  | .put =>
      insertRest needs
        (putName needs walk.fieldName (slice s walk.bgn walk.end_) walk.headerFields)
        (s.drop walk.i) (head walk)
  | .digits j =>
      if (slice s j walk.end_).all isDigit then
        insertRest needs
          (insertField needs (checkField walk.fieldName) (slice s walk.bgn walk.end_)
            walk.headerFields)
          (s.drop walk.i) (head walk)
      else some (.error (-6))
  | .insert =>
      insertRest needs
        (insertField needs (checkField walk.fieldName) (slice s walk.bgn walk.end_)
          walk.headerFields)
        (s.drop walk.i) (head walk)
  | .done ret => if ret = 0 then some (.ok (head walk)) else some (.error ret)

section Fields

variable {needs : Field → Bool}

theorem putField_putName {key : List Byte} (nonempty : key ≠ []) (value : List Byte)
    (fields : Fields) :
    putField needs key value fields = putName needs (stored key) value fields := by
  unfold putField putName stored
  by_cases long : fieldNameMaxLen < key.length
  · rw [if_pos long, if_neg (Nat.not_le.mpr long), if_pos (Or.inl rfl)]
  · rw [if_neg long, if_pos (Nat.not_lt.mp long)]
    dsimp only
    by_cases unknown : checkField (key.map lowercase) = .unknown
    · rw [if_pos unknown, if_pos (Or.inr unknown)]
    · have known : ¬(key.map lowercase = [] ∨ checkField (key.map lowercase) = .unknown) := by
        simp [nonempty, unknown]
      rw [if_neg unknown, if_neg known]
      rfl

theorem scanKey_length {s key left : List Byte} (scanned : scanKey s = some (key, left)) :
    s.length = key.length + left.length := by
  obtain ⟨split, -, -⟩ := scanKey_split scanned
  rw [split, List.length_append]

theorem headerLine_shorter {s left : List Byte} {fields after : Fields}
    (accepted : headerLine needs s fields = some (.ok (left, after))) :
    left.length < s.length := by
  unfold headerLine at accepted
  split at accepted
  · cases accepted
  · rename_i key behind scanned
    split at accepted
    · cases accepted
    · rename_i nonempty
      dsimp only at accepted
      split at accepted
      · cases accepted
      · split at accepted
        · cases accepted
        · cases accepted
          have all := scanKey_length scanned
          have some_ := List.length_pos_iff.mpr nonempty
          have value :=
            (scanValue_split ((behind.drop 1).dropWhile fun byte => byte = space)).1
          have total := congrArg List.length value
          rw [List.length_append] at total
          have trimmed := (List.dropWhile_sublist (l := behind.drop 1)
            fun byte => decide (byte = space)).length_le
          rw [List.length_drop] at trimmed ⊢
          omega

theorem headerLoop_enough {fuel : Nat} {s : List Byte} {fields : Fields}
    (enough : s.length < fuel) :
    headerLoop needs fuel s fields = headerLoop needs (s.length + 1) s fields := by
  induction fuel using Nat.strong_induction_on generalizing s fields with
  | _ fuel ih =>
      cases fuel with
      | zero => cases enough
      | succ fuel =>
          simp only [headerLoop]
          split
          · rfl
          · split
            · rfl
            · cases line : headerLine needs s fields with
              | none => rfl
              | some made =>
                  cases made with
                  | error ret => rfl
                  | ok both =>
                      obtain ⟨left, after⟩ := both
                      have shorter := headerLine_shorter line
                      have first : headerLoop needs fuel left after =
                          headerLoop needs (left.length + 1) left after :=
                        ih fuel (Nat.lt_succ_self fuel) (by omega)
                      dsimp only
                      rw [first]
                      by_cases all : s.length < fuel
                      · exact (ih s.length (by omega) shorter).symm
                      · have same : s.length = fuel := by omega
                        rw [same, first]

theorem fieldsRest_eq (left : List Byte) (head : Head) :
    fieldsRest needs left head =
      if left.length < 2 then some (.error (-4))
      else if left.take 2 = crlf then
        if left.drop 2 ≠ [] then some (.error (-4)) else some (.ok head)
      else match scanKey left with
      | none => some (.error (-5))
      | some (key, left) => keyRest needs key left head := by
  unfold fieldsRest
  by_cases short : left.length < 2
  · simp [headerLoop, short]
  · by_cases last : left.take 2 = crlf
    · simp [headerLoop, short, last]
    · simp only [headerLoop, if_neg short, if_neg last]
      cases scanned : scanKey left with
      | none => simp [headerLine, scanned]
      | some both =>
          obtain ⟨key, behind⟩ := both
          by_cases nonempty : key = []
          · simp [headerLine, scanned, keyRest, nonempty]
          · have line : headerLine needs left head.headerFields =
                headerLine needs left head.headerFields := rfl
            conv_rhs at line => simp only [headerLine, scanned, if_neg nonempty,
              putField_putName nonempty]
            simp only [keyRest, if_neg nonempty, blanksRest, valueRest]
            generalize scanValue ((behind.drop 1).dropWhile fun byte => byte = space) = value
              at line ⊢
            by_cases blank : value.1.getLast? = some space
            · rw [if_pos blank] at line ⊢
              rw [line]
            · rw [if_neg blank] at line ⊢
              cases put : putName needs (stored key) value.1 head.headerFields with
              | error ret =>
                  rw [put] at line
                  simp [line, insertRest]
              | ok fields =>
                  rw [put] at line
                  simp only [line, insertRest, fieldsRest]
                  rw [headerLoop_enough (headerLine_shorter line)]

end Fields

section Steps

variable {needs : Field → Bool} {s : List Byte} {walk : Walk}

theorem isEnd_iff (i : Nat) : isEnd s i = true ↔ byteAt s i = 13 ∧ byteAt s (i + 1) = 10 := by
  simp [isEnd]

theorem drop_two {i : Nat} (more : i + 1 < s.length) :
    s.drop i = byteAt s i :: byteAt s (i + 1) :: s.drop (i + 2) := by
  rw [drop_byteAt (by omega), drop_byteAt more]

theorem drop_short {i : Nat} (few : ¬i + 1 < s.length) : (s.drop i).length ≤ 1 := by
  rw [List.length_drop]
  omega

theorem scanReason_short {left : List Byte} (few : left.length ≤ 1) :
    scanReason left = some ([], left) := by
  rw [scanReason]
  rintro byte other rest rfl
  simp at few

theorem scanValue_short {left : List Byte} (few : left.length ≤ 1) :
    scanValue left = ([], left) := by
  rw [scanValue]
  rintro byte other rest rfl
  simp at few

theorem slice_eq_nil {bgn end_ : Nat} (buffered : bgn < end_ → end_ ≤ s.length) :
    slice s bgn end_ = [] ↔ ¬bgn < end_ := by
  rw [← List.length_eq_zero_iff, slice_length buffered]
  omega

theorem slice_append {bgn i : Nat} (order : bgn ≤ i) :
    slice s bgn i ++ s.drop i = s.drop bgn := by
  have behind : s.drop i = (s.drop bgn).drop (i - bgn) := by
    rw [List.drop_drop, show bgn + (i - bgn) = i by omega]
  rw [slice, behind, List.take_append_drop]

theorem outcome_finish {ret : Int} (nonzero : ret ≠ 0) :
    outcome needs s (walk.finish ret) = some (.error ret) := by
  simp [outcome, Walk.finish, nonzero]

theorem outcome_statusEnd (low : walk.i ≤ s.length) (order : walk.bgn ≤ walk.i)
    (digits : ∀ byte ∈ slice s walk.bgn walk.i, isDigit byte = true)
    (stop : walk.i < s.length → byteAt s walk.i = space) :
    outcome needs s (walk.statusEnd s).2 =
      statusRest needs (slice s walk.bgn walk.i) (s.drop walk.i) (head walk) := by
  have length : (slice s walk.bgn walk.i).length = walk.i - walk.bgn := slice_length fun _ => low
  have empty : s.drop walk.i = [] ↔ walk.i = s.length := by
    rw [List.drop_eq_nil_iff]
    omega
  unfold Walk.statusEnd statusRest
  by_cases refused : walk.i ≠ walk.bgn + 3 ∨ walk.i = s.length
  · have refused_ : (slice s walk.bgn walk.i).length ≠ 3 ∨ s.drop walk.i = [] := by
      rw [length, empty]
      omega
    rw [if_pos refused, if_pos refused_]
    exact outcome_finish (by decide)
  · have accepted : ¬((slice s walk.bgn walk.i).length ≠ 3 ∨ s.drop walk.i = []) := by
      rw [length, empty]
      omega
    rw [if_neg refused, if_neg accepted]
    have more : walk.i < s.length := by omega
    have read : Walk.atoiDigits s walk.bgn = slice s walk.bgn walk.i := by
      rw [Walk.atoiDigits, ← slice_append order, drop_byteAt more, stop more,
        List.takeWhile_append_of_pos digits]
      simp [space, isDigit]
    simp only [outcome, read, slice_self, List.nil_append, List.drop_drop, head]

theorem outcome_reasonEnd (low : walk.i ≤ s.length) (order : walk.bgn ≤ walk.i) :
    outcome needs s (walk.reasonEnd s).2 =
      reasonRest needs (slice s walk.bgn walk.i) (s.drop walk.i) (head walk) := by
  have empty : slice s walk.bgn walk.i = [] ↔ walk.i = walk.bgn := by
    rw [slice_eq_nil fun _ => low]
    omega
  have one : (s.drop walk.i).length = 1 ↔ walk.i + 1 = s.length := by
    rw [List.length_drop]
    omega
  unfold Walk.reasonEnd reasonRest
  simp only [empty, one]
  split
  · exact outcome_finish (by decide)
  · simp only [outcome, List.drop_drop, head]

theorem outcome_keyEnd (low : walk.i ≤ s.length) (order : walk.bgn ≤ walk.i) :
    outcome needs s (walk.keyEnd s).2 =
      keyRest needs (slice s walk.bgn walk.i) (s.drop walk.i) (head walk) := by
  have length : (slice s walk.bgn walk.i).length = walk.i - walk.bgn := slice_length fun _ => low
  have empty : slice s walk.bgn walk.i = [] ↔ walk.i = walk.bgn := by
    rw [slice_eq_nil fun _ => low]
    omega
  simp only [Walk.keyEnd, keyRest, empty]
  split
  · exact outcome_finish (by decide)
  · simp only [stored, length]
    split
    · simp only [outcome, List.drop_drop, head]
    · simp only [outcome, List.drop_drop, head]

theorem outcome_check (stays : walk.fieldName ≠ [])
    (buffered : walk.bgn < walk.end_ → walk.end_ ≤ s.length) :
    outcome needs s (walk.check s).2 =
      insertRest needs
        (putName needs walk.fieldName (slice s walk.bgn walk.end_) walk.headerFields)
        (s.drop walk.i) (head walk) := by
  have length : (slice s walk.bgn walk.end_).length = walk.end_ - walk.bgn :=
    slice_length buffered
  have empty := slice_eq_nil buffered
  unfold Walk.check putName
  cases cur : checkField walk.fieldName with
  | unknown => simp [outcome, insertRest, head]
  | contentLength =>
      dsimp only
      have digits : legalValue .contentLength (slice s walk.bgn walk.end_) =
          (decide (walk.bgn < walk.end_) && (slice s walk.bgn walk.end_).all isDigit) := by
        cases value : slice s walk.bgn walk.end_ with
        | nil => simp [legalValue, empty.mp value]
        | cons byte rest =>
            have some_ : walk.bgn < walk.end_ := by
              rw [← not_not (a := walk.bgn < walk.end_), ← empty, value]
              exact List.cons_ne_nil byte rest
            simp [legalValue, some_]
      have known : ¬(walk.fieldName = [] ∨ Field.contentLength = .unknown) := by simp [stays]
      rw [if_neg known, digits]
      split
      · rename_i some_
        simp only [outcome, some_, decide_true, Bool.true_and, cur]
        cases all : (slice s walk.bgn walk.end_).all isDigit <;> rfl
      · rename_i none_
        simp [none_, outcome, Walk.finish, insertRest]
  | transferEncoding =>
      dsimp only
      have known : ¬(walk.fieldName = [] ∨ Field.transferEncoding = .unknown) := by simp [stays]
      rw [if_neg known]
      split
      · rename_i seven
        rw [show walk.bgn + 7 = walk.end_ by omega]
        dsimp only
        by_cases chunked : slice s walk.bgn walk.end_ = text "chunked"
        · simp [chunked, outcome, legalValue, cur, head]
        · simp [chunked, outcome, legalValue, Walk.finish, insertRest]
      · rename_i other
        have wrong : slice s walk.bgn walk.end_ ≠ text "chunked" := by
          intro chunked
          rw [chunked] at length
          exact other length.symm
        simp [wrong, outcome, legalValue, Walk.finish, insertRest]
  | _ => simp [outcome, insertRest, legalValue, cur, stays, head]

theorem outcome_version (point : walk.point = .version) :
    outcome needs s (step needs s walk).2 = outcome needs s walk := by
  have nine : version.length = 9 := by decide
  simp only [step, point]
  conv_rhs => simp only [outcome, point, versionRest]
  by_cases short : s.length < 9
  · have other : s.take 9 ≠ version := by
      intro same
      have length := congrArg List.length same
      rw [List.length_take] at length
      omega
    rw [if_pos short, if_pos other]
    exact outcome_finish (by decide : (-1 : Int) ≠ 0)
  · rw [if_neg short, show slice s 0 9 = s.take 9 from rfl]
    by_cases same : s.take 9 = version
    · rw [if_pos same, if_neg (not_not_intro same)]
      simp only [outcome, slice_self, List.nil_append, head]
    · rw [if_neg same, if_pos same]
      exact outcome_finish (by decide : (-1 : Int) ≠ 0)

theorem outcome_status (point : walk.point = .status) (inside : Inside s walk) :
    outcome needs s (step needs s walk).2 = outcome needs s walk := by
  simp only [Inside, point] at inside
  obtain ⟨order, low, digits⟩ := inside
  simp only [step, point]
  conv_rhs => simp only [outcome, point]
  by_cases more : walk.i < s.length
  · rw [if_pos more, drop_byteAt more]
    by_cases digit : isDigit (byteAt s walk.i) = true
    · simp only [if_pos digit, outcome, scanStatus, slice_succ order more]
      cases scanStatus (s.drop (walk.i + 1)) <;> simp [head]
    · rw [if_neg digit]
      simp only [scanStatus, if_neg digit]
      by_cases blank : byteAt s walk.i = space
      · rw [if_pos blank, if_pos blank]
        dsimp only
        rw [outcome_statusEnd low order digits fun _ => blank, List.append_nil,
          drop_byteAt more]
      · rw [if_neg blank, if_neg blank]
        exact outcome_finish (by decide)
  · have empty : s.drop walk.i = [] := List.drop_eq_nil_iff.mpr (Nat.not_lt.mp more)
    rw [if_neg more, outcome_statusEnd low order digits fun some_ => absurd some_ more, empty]
    simp [scanStatus]

theorem outcome_reason (point : walk.point = .reason) (inside : Inside s walk) :
    outcome needs s (step needs s walk).2 = outcome needs s walk := by
  simp only [Inside, point] at inside
  obtain ⟨order, low⟩ := inside
  simp only [step, point]
  conv_rhs => simp only [outcome, point]
  by_cases more : walk.i + 1 < s.length
  · rw [if_pos more, drop_two more]
    simp only [scanReason, ← isEnd_iff]
    by_cases ends : isEnd s walk.i = true
    · rw [if_pos ends, if_pos ends]
      dsimp only
      rw [outcome_reasonEnd low order, List.append_nil, drop_two more]
    · rw [if_neg ends, if_neg ends]
      by_cases legal : isReason (byteAt s walk.i) = true
      · have here : walk.i < s.length := by omega
        simp only [if_pos legal, outcome, slice_succ order here, drop_byteAt more]
        cases scanReason (byteAt s (walk.i + 1) :: s.drop (walk.i + 2)) <;> simp [head]
      · rw [if_neg legal, if_neg legal]
        exact outcome_finish (by decide)
  · rw [if_neg more, outcome_reasonEnd low order, scanReason_short (drop_short more)]
    simp

theorem outcome_key (point : walk.point = .key) (inside : Inside s walk) :
    outcome needs s (step needs s walk).2 = outcome needs s walk := by
  simp only [Inside, point] at inside
  obtain ⟨order, low⟩ := inside
  simp only [step, point]
  conv_rhs => simp only [outcome, point]
  by_cases more : walk.i < s.length
  · rw [if_pos more, drop_byteAt more]
    by_cases legal : isKey (byteAt s walk.i) = true
    · simp only [if_pos legal, outcome, scanKey, slice_succ order more]
      cases scanKey (s.drop (walk.i + 1)) <;> simp [head]
    · rw [if_neg legal]
      simp only [scanKey, if_neg legal]
      by_cases colon : byteAt s walk.i = 58
      · rw [if_pos colon, if_pos colon]
        dsimp only
        rw [outcome_keyEnd low order, List.append_nil, drop_byteAt more]
      · rw [if_neg colon, if_neg colon]
        exact outcome_finish (by decide)
  · have empty : s.drop walk.i = [] := List.drop_eq_nil_iff.mpr (Nat.not_lt.mp more)
    rw [if_neg more, outcome_keyEnd low order, empty]
    simp [scanKey]

theorem outcome_value (point : walk.point = .value) (inside : Inside s walk) :
    outcome needs s (step needs s walk).2 = outcome needs s walk := by
  simp only [Inside, point] at inside
  obtain ⟨order, low, buffered⟩ := inside
  simp only [step, point]
  conv_rhs => simp only [outcome, point]
  by_cases more : walk.i + 1 < s.length
  · rw [if_pos more, drop_two more]
    simp only [scanValue, ← isEnd_iff]
    by_cases ends : isEnd s walk.i = true
    · rw [if_pos ends, if_pos ends]
      simp only [outcome, head, List.append_nil, drop_two more]
    · have here : walk.i < s.length := by omega
      rw [if_neg ends, if_neg ends]
      simp only [outcome, slice_succ order here, drop_byteAt more]
      simp [head]
  · rw [if_neg more, scanValue_short (drop_short more)]
    simp [outcome, head]

theorem outcome_fields (point : walk.point = .fields) :
    outcome needs s (step needs s walk).2 = outcome needs s walk := by
  simp only [step, point]
  conv_rhs => simp only [outcome, point, fieldsRest_eq]
  by_cases more : walk.i + 1 < s.length
  · have long : ¬(s.drop walk.i).length < 2 := by
      rw [List.length_drop]
      omega
    have last : (s.drop walk.i).take 2 = crlf ↔ isEnd s walk.i = true := by
      rw [drop_two more, isEnd_iff]
      simp [crlf]
    rw [if_pos more, if_neg long]
    simp only [last]
    by_cases ends : isEnd s walk.i = true
    · rw [if_pos ends, if_pos ends]
      by_cases all : walk.i + 2 = s.length
      · have empty : (s.drop walk.i).drop 2 = [] := by
          rw [List.drop_drop, all, List.drop_length]
        simp [all, empty, outcome, Walk.finish, head]
      · have rest : (s.drop walk.i).drop 2 ≠ [] := by
          rw [List.drop_drop, ne_eq, List.drop_eq_nil_iff]
          omega
        rw [if_pos all, if_pos rest]
        exact outcome_finish (by decide : (-4 : Int) ≠ 0)
    · rw [if_neg ends, if_neg ends]
      simp only [outcome, slice_self, List.nil_append, head]
  · have short : (s.drop walk.i).length < 2 := by
      have few := drop_short more
      omega
    rw [if_neg more, if_pos short]
    exact outcome_finish (by decide : (-4 : Int) ≠ 0)

theorem outcome_blanks (point : walk.point = .blanks) :
    outcome needs s (step needs s walk).2 = outcome needs s walk := by
  simp only [step, point]
  conv_rhs => simp only [outcome, point, blanksRest]
  by_cases more : walk.i < s.length
  · rw [if_pos more, drop_byteAt more]
    by_cases blank : byteAt s walk.i = space
    · simp [blank, outcome, blanksRest, head]
    · simp [blank, outcome, drop_byteAt more, head]
  · have empty : s.drop walk.i = [] := List.drop_eq_nil_iff.mpr (Nat.not_lt.mp more)
    simp [more, outcome, empty, head]

theorem slice_getLast? {bgn end_ : Nat} (some_ : bgn < end_) (inside : end_ ≤ s.length) :
    (slice s bgn end_).getLast? = some (byteAt s (end_ - 1)) := by
  have succ : end_ = (end_ - 1) + 1 := by omega
  rw [succ, slice_succ (by omega) (by omega), ← succ]
  simp

theorem outcome_trim (point : walk.point = .trim) (inside : Inside s walk) :
    outcome needs s (step needs s walk).2 = outcome needs s walk := by
  simp only [Inside, point] at inside
  obtain ⟨order, low, buffered⟩ := inside
  simp only [step, point]
  by_cases some_ : walk.bgn < walk.end_
  · have last := slice_getLast? some_ (buffered some_)
    rw [if_pos some_]
    by_cases blank : byteAt s (walk.end_ - 1) = space
    · rw [if_pos blank]
    · rw [if_neg blank]
      simp [outcome, point, valueRest, last, blank, head]
  · have empty := (slice_eq_nil buffered).mpr some_
    simp [some_, outcome, point, valueRest, empty, head]

theorem outcome_digits {j : Nat} (point : walk.point = .digits j) (inside : Inside s walk) :
    outcome needs s (step needs s walk).2 = outcome needs s walk := by
  simp only [Inside, point] at inside
  obtain ⟨first, order, low, buffered⟩ := inside
  simp only [step, point]
  conv_rhs => simp only [outcome, point]
  by_cases more : j < walk.end_
  · have front : slice s j walk.end_ = byteAt s j :: slice s (j + 1) walk.end_ := by
      have size : walk.end_ - j = (walk.end_ - (j + 1)) + 1 := by omega
      rw [slice, drop_byteAt (by omega), size, List.take_succ_cons, slice]
    rw [if_pos more, front, List.all_cons]
    by_cases digit : isDigit (byteAt s j) = true
    · simp [digit, outcome, head]
    · simp [digit, outcome, Walk.finish]
  · have empty : slice s j walk.end_ = [] := (slice_eq_nil fun _ => buffered).mpr more
    simp [more, empty, outcome, head]

theorem outcome_insert (point : walk.point = .insert) (inside : Inside s walk) :
    outcome needs s (step needs s walk).2 = outcome needs s walk := by
  simp only [Inside, point] at inside
  obtain ⟨order, low, buffered⟩ := inside
  have empty := slice_eq_nil buffered
  simp only [step, point]
  conv_rhs => simp only [outcome, point, insertField]
  by_cases wanted : needs (checkField walk.fieldName) = true ∧ walk.bgn < walk.end_
  · have wanted_ : (needs (checkField walk.fieldName) &&
        !(slice s walk.bgn walk.end_).isEmpty) = true := by
      simp [wanted.1, empty, wanted.2]
    rw [if_pos wanted, if_pos wanted_]
    dsimp only
    split
    · exact outcome_finish (by decide : (-7 : Int) ≠ 0)
    · simp [outcome, insertRest, head]
  · have refused : ¬(needs (checkField walk.fieldName) &&
        !(slice s walk.bgn walk.end_).isEmpty) = true := by
      simpa [empty] using wanted
    rw [if_neg wanted, if_neg refused]
    simp [outcome, insertRest, head]

theorem outcome_step (inside : Inside s walk) :
    outcome needs s (step needs s walk).2 = outcome needs s walk := by
  cases point : walk.point with
  | version => exact outcome_version point
  | status => exact outcome_status point inside
  | reason => exact outcome_reason point inside
  | fields => exact outcome_fields point
  | key => exact outcome_key point inside
  | blanks => exact outcome_blanks point
  | value => exact outcome_value point inside
  | trim => exact outcome_trim point inside
  | put =>
      simp only [Inside, point] at inside
      simp only [step, point]
      conv_rhs => simp only [outcome, point]
      split
      · rename_i empty
        simp [outcome, putName, empty, insertRest, head]
      · rename_i stays
        exact outcome_check stays inside.2.2
  | digits j => exact outcome_digits point inside
  | insert => exact outcome_insert point inside
  | done ret => simp [step, point]

end Steps

/-- The walk is a walk of the parser: whatever it has come to, the result is the same. -/
theorem outcome_run (needs : Field → Bool) (s : List Byte) (steps : Nat) :
    outcome needs s (run needs s steps) = httpRspParse needs s := by
  induction steps with
  | zero =>
      simp only [run, outcome, versionRest, httpRspParse, statusLine, head]
      split
      · rfl
      · cases scanStatus (s.drop 9) with
        | none => rfl
        | some both =>
            obtain ⟨digits, left⟩ := both
            simp only [statusRest]
            split
            · rfl
            · cases scanReason (left.drop 1) with
              | none => rfl
              | some both =>
                  obtain ⟨phrase, behind⟩ := both
                  simp only [reasonRest]
                  split
                  · rfl
                  · rfl
  | succ steps ih => rw [run, outcome_step (run_inside needs s steps), ih]

section Measure

variable {needs : Field → Bool} {s : List Byte} {walk : Walk}

def weight (s : List Byte) (walk : Walk) : Nat :=
  match walk.point with
  | .put => s.length + 10
  | .digits j => walk.end_ - j + 5
  | .insert => 4
  | .fields => 3
  | .key | .blanks => 2
  | .value => 1
  | _ => 0

def Done (walk : Walk) : Prop := ∃ ret, walk.point = .done ret

/-- The loop that should trim a value and does nothing. -/
def Stuck (s : List Byte) (walk : Walk) : Prop :=
  walk.point = .trim ∧ walk.bgn < walk.end_ ∧ byteAt s (walk.end_ - 1) = space

def Proceeds (s : List Byte) (walk next : Walk) : Prop :=
  Done next ∨ walk.i < next.i ∨ (next.i = walk.i ∧ weight s next < weight s walk)

theorem proceeds_finish (ret : Int) : Proceeds s walk (walk.finish ret) :=
  Or.inl ⟨ret, rfl⟩

theorem proceeds_check (point : walk.point = .put)
    (buffered : walk.bgn < walk.end_ → walk.end_ ≤ s.length) :
    Proceeds s walk (walk.check s).2 := by
  unfold Walk.check
  split
  · exact Or.inr (Or.inr ⟨rfl, by simp only [weight, point]; omega⟩)
  · split
    · rename_i some_
      have whole := buffered some_
      exact Or.inr (Or.inr ⟨rfl, by simp only [weight, point]; omega⟩)
    · exact proceeds_finish (-6)
  · split
    · dsimp only
      split
      · exact Or.inr (Or.inr ⟨rfl, by simp only [weight, point]; omega⟩)
      · exact proceeds_finish (-6)
    · exact proceeds_finish (-6)
  · exact Or.inr (Or.inr ⟨rfl, by simp only [weight, point]; omega⟩)

theorem step_proceeds (inside : Inside s walk) (running : ¬Done walk) (moving : ¬Stuck s walk) :
    Proceeds s walk (step needs s walk).2 := by
  unfold Inside at inside
  unfold step
  cases point : walk.point with
  | version =>
      rw [point] at inside
      dsimp only at inside ⊢
      split
      · exact proceeds_finish (-1)
      · dsimp only
        split
        · exact Or.inr (Or.inl (by change walk.i < 9; omega))
        · exact proceeds_finish (-1)
  | status =>
      have behind : Proceeds s walk (walk.statusEnd s).2 := by
        unfold Walk.statusEnd
        split
        · exact proceeds_finish (-2)
        · exact Or.inr (Or.inl (Nat.lt_succ_self _))
      dsimp only
      split
      · split
        · exact Or.inr (Or.inl (Nat.lt_succ_self _))
        · split
          · exact behind
          · exact proceeds_finish (-2)
      · exact behind
  | reason =>
      have behind : Proceeds s walk (walk.reasonEnd s).2 := by
        unfold Walk.reasonEnd
        split
        · exact proceeds_finish (-3)
        · exact Or.inr (Or.inl (by change walk.i < walk.i + 2; omega))
      dsimp only
      split
      · split
        · exact behind
        · split
          · exact Or.inr (Or.inl (Nat.lt_succ_self _))
          · exact proceeds_finish (-3)
      · exact behind
  | fields =>
      dsimp only
      split
      · split
        · dsimp only
          split
          · exact Or.inl ⟨-4, rfl⟩
          · exact Or.inl ⟨0, rfl⟩
        · exact Or.inr (Or.inr ⟨rfl, by simp only [weight, point]; omega⟩)
      · exact proceeds_finish (-4)
  | key =>
      have behind : Proceeds s walk (walk.keyEnd s).2 := by
        simp only [Walk.keyEnd]
        split
        · exact proceeds_finish (-5)
        · split
          · exact Or.inr (Or.inl (Nat.lt_succ_self _))
          · exact Or.inr (Or.inl (Nat.lt_succ_self _))
      dsimp only
      split
      · split
        · exact Or.inr (Or.inl (Nat.lt_succ_self _))
        · split
          · exact behind
          · exact proceeds_finish (-5)
      · exact behind
  | blanks =>
      have behind : Proceeds s walk { walk with bgn := walk.i, point := .value } :=
        Or.inr (Or.inr ⟨rfl, by simp only [weight, point]; omega⟩)
      dsimp only
      split
      · split
        · exact Or.inr (Or.inl (Nat.lt_succ_self _))
        · exact behind
      · exact behind
  | value =>
      have behind : Proceeds s walk { walk with end_ := walk.i, point := .trim } :=
        Or.inr (Or.inr ⟨rfl, by simp only [weight, point]; omega⟩)
      dsimp only
      split
      · split
        · exact behind
        · exact Or.inr (Or.inl (Nat.lt_succ_self _))
      · exact behind
  | trim =>
      have behind : Proceeds s walk { walk with i := walk.i + 2, point := .put } :=
        Or.inr (Or.inl (by change walk.i < walk.i + 2; omega))
      dsimp only
      split
      · rename_i some_
        split
        · rename_i blank
          -- a blank in front of the end is the only way to stand still
          exact absurd ⟨point, some_, blank⟩ moving
        · exact behind
      · exact behind
  | put =>
      rw [point] at inside
      dsimp only
      split
      · exact Or.inr (Or.inr ⟨rfl, by simp only [weight, point]; omega⟩)
      · exact proceeds_check point inside.2.2
  | digits j =>
      dsimp only
      split
      · split
        · exact Or.inr (Or.inr ⟨rfl, by simp only [weight, point]; omega⟩)
        · exact proceeds_finish (-6)
      · exact Or.inr (Or.inr ⟨rfl, by simp only [weight, point]; omega⟩)
  | insert =>
      dsimp only
      split
      · dsimp only
        split
        · exact proceeds_finish (-7)
        · exact Or.inr (Or.inr ⟨rfl, by simp only [weight, point]; omega⟩)
      · exact Or.inr (Or.inr ⟨rfl, by simp only [weight, point]; omega⟩)
  | done ret => exact absurd ⟨ret, point⟩ running

/-- What is left of the walk: the indices first, then the points at one index. -/
def measure (s : List Byte) (walk : Walk) : Nat :=
  match walk.point with
  | .done _ => 0
  | _ => (s.length + 4 - walk.i) * (s.length + 16) + weight s walk

theorem measure_running (running : ¬Done walk) :
    measure s walk = (s.length + 4 - walk.i) * (s.length + 16) + weight s walk := by
  unfold measure
  split
  · rename_i ret point
    exact absurd ⟨ret, point⟩ running
  · rfl

theorem weight_lt (inside : Inside s walk) : weight s walk < s.length + 16 := by
  unfold Inside at inside
  unfold weight
  cases point : walk.point with
  | digits j =>
      rw [point] at inside
      dsimp only at inside ⊢
      omega
  | _ =>
      dsimp only
      omega

theorem measure_step (inside : Inside s walk) (running : ¬Done walk) (moving : ¬Stuck s walk) :
    measure s (step needs s walk).2 < measure s walk := by
  have low := inside_low inside
  have next : Inside s (step needs s walk).2 := (step_safe inside).2
  have positive : 0 < measure s walk := by
    rw [measure_running running]
    exact Nat.add_pos_left (Nat.mul_pos (by omega) (by omega)) _
  have proceeds : Proceeds s walk (step needs s walk).2 := step_proceeds inside running moving
  rcases proceeds with ⟨ret, point⟩ | later | ⟨same, lighter⟩
  · rw [measure, point]
    exact positive
  · by_cases isOver : Done (step needs s walk).2
    · obtain ⟨ret, point⟩ := isOver
      rw [measure, point]
      exact positive
    · rw [measure_running isOver, measure_running running]
      have small := weight_lt next
      have fewer : s.length + 4 - (step needs s walk).2.i + 1 ≤ s.length + 4 - walk.i := by omega
      calc (s.length + 4 - (step needs s walk).2.i) * (s.length + 16) +
              weight s (step needs s walk).2
          < (s.length + 4 - (step needs s walk).2.i) * (s.length + 16) + (s.length + 16) := by
            omega
        _ = (s.length + 4 - (step needs s walk).2.i + 1) * (s.length + 16) := by
            rw [Nat.add_mul, Nat.one_mul]
        _ ≤ (s.length + 4 - walk.i) * (s.length + 16) := Nat.mul_le_mul_right _ fewer
        _ ≤ (s.length + 4 - walk.i) * (s.length + 16) + weight s walk := Nat.le_add_right _ _
  · by_cases isOver : Done (step needs s walk).2
    · obtain ⟨ret, point⟩ := isOver
      rw [measure, point]
      exact positive
    · rw [measure_running isOver, measure_running running, same]
      omega

theorem run_settles (needs : Field → Bool) (s : List Byte) (steps : Nat) :
    ∃ more, Done (run needs s more) ∨ Stuck s (run needs s more) := by
  -- by induction on what is left of the walk
  induction left : measure s (run needs s steps) using Nat.strong_induction_on
    generalizing steps with
  | _ bound ih =>
      by_cases isOver : Done (run needs s steps)
      · exact ⟨steps, Or.inl isOver⟩
      · by_cases stuck : Stuck s (run needs s steps)
        · exact ⟨steps, Or.inr stuck⟩
        · have shorter : measure s (run needs s (steps + 1)) < measure s (run needs s steps) :=
            measure_step (run_inside needs s steps) isOver stuck
          rw [left] at shorter
          exact ih _ shorter (steps + 1) rfl

end Measure

/-- `http_rsp_parse` comes to one of its returns. -/
def Halts (needs : Field → Bool) (s : List Byte) : Prop :=
  ∃ steps ret, (run needs s steps).point = .done ret

theorem halts_iff (needs : Field → Bool) (s : List Byte) :
    Halts needs s ↔ httpRspParse needs s ≠ none := by
  constructor
  · rintro ⟨steps, ret, point⟩
    rw [← outcome_run needs s steps]
    simp only [outcome, point]
    split <;> simp
  · intro result
    obtain ⟨steps, isOver | ⟨point, some_, blank⟩⟩ := run_settles needs s 0
    · exact ⟨steps, isOver⟩
    · -- a value that ends in a space has no result
      have inside := run_inside needs s steps
      simp only [Inside, point] at inside
      have last := slice_getLast? some_ (inside.2.2 some_)
      rw [blank] at last
      rw [← outcome_run needs s steps] at result
      simp [outcome, point, valueRest, last] at result

def opening (reading : Reading) : List Byte :=
  version ++ (reading.digits ++ space :: (reading.phrase ++ (crlf ++
    reading.lines.flatMap FieldLine.bytes)))

/-- Behind a status line and fields that are accepted there is a field whose value, up to the
CRLF or up to the last byte of the buffer, ends in a space. -/
def Trapped (needs : Field → Bool) (s : List Byte) : Prop :=
  ∃ (reading : Reading) (line : FieldLine) (tail : List Byte),
    s = opening reading ++ (line.unended ++ tail) ∧
      (∀ other ∈ reading.lines, other.Legal ∧ other.value.getLast? ≠ some space) ∧
      reading.Distinct needs ∧ line.value.getLast? = some space ∧
      (tail.take 2 = crlf ∨ tail.length = 1)

section Trap

variable {needs : Field → Bool}

theorem scanValue_left {s : List Byte} (nonempty : s ≠ []) : (scanValue s).2 ≠ [] := by
  induction s using scanValue.induct with
  | case1 byte other rest ends => simp [scanValue, ends]
  | case2 byte other rest inside ih =>
      simp only [scanValue, if_neg inside]
      exact ih (List.cons_ne_nil other rest)
  | case3 short few =>
      rw [scanValue]
      · exact nonempty
      · exact few

theorem scanValue_last {value : List Byte} (byte : Byte) (clean : Clean 13 10 value)
    (last : value.getLast? ≠ some 13) : scanValue (value ++ [byte]) = (value, [byte]) := by
  induction value with
  | nil => rfl
  | cons first others ih =>
      cases others with
      | nil =>
          rw [List.getLast?_singleton, ne_eq, Option.some.injEq] at last
          simp [scanValue, last]
      | cons second rest =>
          rw [List.getLast?_cons_cons] at last
          have tail := ih clean.2 last
          have inside : ¬(first = 13 ∧ second = 10) := by simpa using clean.1
          simp only [List.cons_append] at tail ⊢
          simp [scanValue, inside, tail]

theorem headerLine_none {s : List Byte} {fields : Fields} :
    headerLine needs s fields = none ↔
      ∃ (line : FieldLine) (tail : List Byte), s = line.unended ++ tail ∧
        line.value.getLast? = some space ∧ (tail.take 2 = crlf ∨ tail.length = 1) := by
  constructor
  · intro trapped
    unfold headerLine at trapped
    split at trapped
    · cases trapped
    · rename_i name behind scanned
      split at trapped
      · cases trapped
      · rename_i nonempty
        dsimp only at trapped
        split at trapped
        · rename_i blank
          obtain ⟨-, -, ends⟩ := scanKey_split scanned
          rcases ends with none_ | ⟨rest, colon⟩
          · rw [none_] at blank
            cases blank
          · rw [colon] at scanned blank
            simp only [List.drop_succ_cons, List.drop_zero] at blank
            obtain ⟨line, -, valued, whole⟩ := scanned_line scanned nonempty
            obtain ⟨-, -, stops⟩ := scanValue_split (rest.dropWhile fun byte => byte = space)
            refine ⟨line, _, whole, by rw [valued]; exact blank, ?_⟩
            rcases stops with short | ⟨others, stop⟩
            · right
              have some_ : rest.dropWhile (fun byte => byte = space) ≠ [] := by
                intro empty
                rw [empty] at blank
                cases blank
              have left := List.length_pos_iff.mpr (scanValue_left some_)
              omega
            · rw [stop]
              exact Or.inl rfl
        · split at trapped <;> cases trapped
  · rintro ⟨line, tail, rfl, blank, ends⟩
    have filled : line.value ≠ [] := by
      intro empty
      rw [empty] at blank
      cases blank
    have scanned : scanValue (line.value ++ tail) = (line.value, tail) := by
      rcases ends with stop | one
      · have shape : tail = 13 :: 10 :: tail.drop 2 := by
          conv_lhs => rw [← List.take_append_drop 2 tail, stop]
          rfl
        rw [shape]
        exact scanValue_complete line.clean
      · obtain ⟨byte, rfl⟩ := List.length_eq_one_iff.mp one
        exact scanValue_last byte line.clean (by rw [blank]; decide)
    have shape : line.unended ++ tail =
        line.name ++ 58 :: (List.replicate line.blanks space ++ (line.value ++ tail)) := by
      simp [FieldLine.unended]
    unfold headerLine
    rw [shape, scanKey_complete line.letters]
    simp only [if_neg line.nonempty, List.drop_succ_cons, List.drop_zero]
    rw [dropWhile_blanks line.blanks (trimmed_append line fun empty => absurd empty filled),
      scanned]
    exact if_pos blank

/-- The loop over the fields does not end exactly if it passes over lines that are accepted
and then comes to a field with such a value. -/
theorem headerLoop_none {fuel : Nat} {s : List Byte} {fields : Fields} (enough : s.length < fuel)
    (first : (fields.map Prod.fst).Nodup) (trapped : headerLoop needs fuel s fields = none) :
    ∃ (lines : List FieldLine) (rest : List Byte),
      s = lines.flatMap FieldLine.bytes ++ rest ∧
      (∀ line ∈ lines, line.Legal ∧ line.value.getLast? ≠ some space) ∧
      ((fields ++ lines.filterMap (FieldLine.entry needs)).map Prod.fst).Nodup ∧
      headerLine needs rest (fields ++ lines.filterMap (FieldLine.entry needs)) = none := by
  induction fuel generalizing s fields with
  | zero => cases enough
  | succ fuel ih =>
      simp only [headerLoop] at trapped
      split at trapped
      · cases trapped
      · split at trapped
        · cases trapped
        · split at trapped
          · rename_i left after line_
            have shorter := headerLine_shorter line_
            have more : left ≠ [] := by
              rintro rfl
              cases fuel with
              | zero => omega
              | succ fuel => simp [headerLoop] at trapped
            obtain ⟨line, whole, own, put⟩ := headerLine_inv line_ more
            obtain ⟨ownLegal, ownEntry, ownDistinct⟩ := putField_ok put
            obtain ⟨lines, rest, split, accepted, distinct, stop⟩ :=
              ih (by omega) (ownDistinct first) trapped
            have added : fields ++ (line :: lines).filterMap (FieldLine.entry needs) =
                after ++ lines.filterMap (FieldLine.entry needs) := by
              rw [ownEntry]
              cases entry : line.entry needs <;> simp [entry]
            refine ⟨line :: lines, rest, ?_, List.forall_mem_cons.mpr ⟨⟨ownLegal, own⟩, accepted⟩,
              ?_, ?_⟩
            · rw [whole, split]
              simp
            · rw [added]
              exact distinct
            · rw [added]
              exact stop
          · exact ⟨[], s, by simp, by simp, by simpa using first, by simpa using trapped⟩

theorem httpRspParse_none {s : List Byte} : httpRspParse needs s = none ↔ Trapped needs s := by
  constructor
  · intro trapped
    unfold httpRspParse at trapped
    split at trapped
    · cases trapped
    · rename_i status
      split at trapped
      · rename_i fields
        obtain ⟨digits, three, decimal_, nonempty, letters, rfl, whole⟩ := statusLine_inv status
        obtain ⟨lines, rest, split, accepted, distinct, stop⟩ :=
          headerLoop_none (Nat.lt_succ_self _) (by simp) fields
        obtain ⟨line, tail, shape, blank, ends⟩ := headerLine_none.mp stop
        refine ⟨⟨digits, _, lines, three, decimal_, nonempty, letters⟩, line, tail, ?_, accepted,
          distinct, blank, ends⟩
        rw [whole, split, shape]
        simp [opening]
      · cases trapped
      · split at trapped <;> cases trapped
  · rintro ⟨reading, line, tail, rfl, accepted, distinct, blank, ends⟩
    have status : statusLine (opening reading ++ (line.unended ++ tail)) =
        .ok (decimal reading.digits, reading.phrase,
          reading.lines.flatMap FieldLine.bytes ++ (line.unended ++ tail)) := by
      rw [← statusLine_complete reading.three reading.decimal reading.nonempty reading.letters]
      simp [opening]
    have passed : headerLoop needs
        ((reading.lines.flatMap FieldLine.bytes ++ (line.unended ++ tail)).length + 1)
        (reading.lines.flatMap FieldLine.bytes ++ (line.unended ++ tail)) [] = none := by
      obtain ⟨long, start⟩ := unended_start line tail
      have turns := lines_length reading.lines
      have fuel : (reading.lines.flatMap FieldLine.bytes ++ (line.unended ++ tail)).length + 1 =
          reading.lines.length + (((reading.lines.flatMap FieldLine.bytes).length -
            reading.lines.length + (line.unended ++ tail).length) + 1) := by
        rw [List.length_append]
        omega
      have fresh : (([] ++ reading.lines.filterMap (FieldLine.entry needs)).map Prod.fst).Nodup :=
        distinct
      rw [fuel, headerLoop_append _ (fun other member => (accepted other member).1)
        (fun other member => (accepted other member).2) fresh, headerLoop,
        if_neg (by omega), if_neg start, headerLine_none.mpr ⟨line, tail, rfl, blank, ends⟩]
    simp only [httpRspParse, status, passed]

end Trap

/-- `http_rsp_parse` returns on a buffer exactly if it does not come to a value that ends in a
space. -/
theorem http_rsp_parse_returns (needs : Field → Bool) (s : List Byte) :
    Halts needs s ↔ ¬Trapped needs s := by
  rw [halts_iff, ne_eq, httpRspParse_none]

/-- A head with one space behind a value. -/
theorem http_rsp_parse_hangs :
    ¬Halts (fun _ => false) (text "HTTP/1.1 200 OK\r\nServer: a \r\n\r\n") := by
  rw [halts_iff, not_not]
  decide +kernel

end Cocoflow.HttpHalting
