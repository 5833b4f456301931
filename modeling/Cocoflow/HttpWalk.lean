import Mathlib.Data.List.Basic
import Cocoflow.LabelledRuns
import Cocoflow.TcpConnection
import Cocoflow.HttpResponse

/-!
`http_rsp_parse` as it walks over its buffer: one step for each turn of a loop and for each
statement between two loops, with the indices `i`, `bgn` and `end` as they are. A step tells
which bytes of the buffer it reads, which cells of `field_name` it writes and which
differences of indices it computes. Indices may point behind the buffer; a byte that is read
there would be any byte, here 0.

`i` never exceeds the length of the buffer by more than 3, so as `size_t` it does not wrap.
-/

namespace Cocoflow.HttpWalk

open TcpConnection HttpResponse

/-- What a step does to memory: it reads `s[k]`, writes `field_name[k]`, or computes
`end - bgn`. -/
inductive Access where
  | read (k : Nat)
  | write (k : Nat)
  | difference (end_ bgn : Nat)
  deriving DecidableEq

/-- The loops of the function and the places between them. -/
inductive Point where
  | version
  | status
  | reason
  | fields
  | key
  | blanks
  | value
  | trim
  | put
  | digits (j : Nat)
  | insert
  | done (ret : Int)
  deriving DecidableEq

structure Walk where
  point : Point := .version
  i : Nat := 0
  bgn : Nat := 0
  end_ : Nat := 0
  fieldName : List Byte := []
  statusCode : Nat := 0
  reasonPhrase : List Byte := []
  headerFields : Fields := []
  deriving DecidableEq

def byteAt (s : List Byte) (k : Nat) : Byte := s.getD k 0

def slice (s : List Byte) (bgn end_ : Nat) : List Byte := (s.drop bgn).take (end_ - bgn)

def reads (bgn end_ : Nat) : List Access := (List.range' bgn (end_ - bgn)).map Access.read

def isEnd (s : List Byte) (i : Nat) : Bool := byteAt s i == 13 && byteAt s (i + 1) == 10

/-- The reads of this test; the second byte is looked at behind a CR only. -/
def endReads (s : List Byte) (i : Nat) : List Access :=
  .read i :: if byteAt s i = 13 then [.read (i + 1)] else []

namespace Walk

def finish (walk : Walk) (ret : Int) : Walk := { walk with point := .done ret }

/-- `atoi(&s[bgn])` reads the digits and the first byte that is none. -/
def atoiDigits (s : List Byte) (bgn : Nat) : List Byte := (s.drop bgn).takeWhile isDigit

def statusEnd (s : List Byte) (walk : Walk) : List Access × Walk :=
  if walk.i ≠ walk.bgn + 3 ∨ walk.i = s.length then ([], walk.finish (-2))
  else
    let digits := atoiDigits s walk.bgn
    (reads walk.bgn (walk.bgn + digits.length + 1),
      { walk with
        statusCode := decimal digits
        i := walk.i + 1
        bgn := walk.i + 1
        point := .reason })

def reasonEnd (s : List Byte) (walk : Walk) : List Access × Walk :=
  if walk.i = walk.bgn ∨ walk.i + 1 = s.length then ([], walk.finish (-3))
  else
    (reads walk.bgn walk.i,
      { walk with
        reasonPhrase := slice s walk.bgn walk.i
        i := walk.i + 2
        point := .fields })

def keyEnd (s : List Byte) (walk : Walk) : List Access × Walk :=
  let end_ := walk.i
  if end_ = walk.bgn then ([], walk.finish (-5))
  else
    let size := end_ - walk.bgn
    if size ≤ fieldNameMaxLen then
      (.difference end_ walk.bgn :: reads walk.bgn end_ ++
          (List.range (size + 1)).map Access.write,
        { walk with
          end_ := end_
          fieldName := (slice s walk.bgn end_).map lowercase
          i := walk.i + 1
          point := .blanks })
    else
      ([.difference end_ walk.bgn, .write 0],
        { walk with end_ := end_, fieldName := [], i := walk.i + 1, point := .blanks })

def check (s : List Byte) (walk : Walk) : List Access × Walk :=
  match checkField walk.fieldName with
  | .unknown => ([], { walk with point := .fields })
  | .contentLength =>
      if walk.bgn < walk.end_ then ([], { walk with point := .digits walk.bgn })
      else ([], walk.finish (-6))
  | .transferEncoding =>
      if walk.end_ - walk.bgn = 7 then
        (.difference walk.end_ walk.bgn :: reads walk.bgn (walk.bgn + 7),
          if slice s walk.bgn (walk.bgn + 7) = text "chunked" then
            { walk with point := .insert }
          else walk.finish (-6))
      else ([.difference walk.end_ walk.bgn], walk.finish (-6))
  | _ => ([], { walk with point := .insert })

end Walk

open Walk in
/-- One step: what it accesses and where the walk is behind it. -/
def step (needs : Field → Bool) (s : List Byte) (walk : Walk) : List Access × Walk :=
  match walk.point with
  | .version =>
      if s.length < 9 then ([], walk.finish (-1))
      else
        (reads 0 9,
          if slice s 0 9 = version then { walk with i := 9, bgn := 9, point := .status }
          else walk.finish (-1))
  | .status =>
      if walk.i < s.length then
        if isDigit (byteAt s walk.i) then ([.read walk.i], { walk with i := walk.i + 1 })
        else if byteAt s walk.i = space then
          let behind := statusEnd s walk
          (.read walk.i :: behind.1, behind.2)
        else ([.read walk.i], walk.finish (-2))
      else statusEnd s walk
  | .reason =>
      if walk.i + 1 < s.length then
        if isEnd s walk.i then
          let behind := reasonEnd s walk
          (endReads s walk.i ++ behind.1, behind.2)
        else if isReason (byteAt s walk.i) then
          (endReads s walk.i, { walk with i := walk.i + 1 })
        else (endReads s walk.i, walk.finish (-3))
      else reasonEnd s walk
  | .fields =>
      if walk.i + 1 < s.length then
        if isEnd s walk.i then
          (endReads s walk.i,
            if walk.i + 2 ≠ s.length then { walk with i := walk.i + 2 }.finish (-4)
            else { walk with i := walk.i + 2 }.finish 0)
        else (endReads s walk.i, { walk with bgn := walk.i, point := .key })
      else ([], walk.finish (-4))
  | .key =>
      if walk.i < s.length then
        if isKey (byteAt s walk.i) then ([.read walk.i], { walk with i := walk.i + 1 })
        else if byteAt s walk.i = 58 then
          let behind := keyEnd s walk
          (.read walk.i :: behind.1, behind.2)
        else ([.read walk.i], walk.finish (-5))
      else keyEnd s walk
  | .blanks =>
      if walk.i < s.length then
        if byteAt s walk.i = space then ([.read walk.i], { walk with i := walk.i + 1 })
        else ([.read walk.i], { walk with bgn := walk.i, point := .value })
      else ([], { walk with bgn := walk.i, point := .value })
  | .value =>
      if walk.i + 1 < s.length then
        if isEnd s walk.i then
          (endReads s walk.i, { walk with end_ := walk.i, point := .trim })
        else (endReads s walk.i, { walk with i := walk.i + 1 })
      else ([], { walk with end_ := walk.i, point := .trim })
  | .trim =>
      if walk.bgn < walk.end_ then
        -- the body of this loop is empty
        if byteAt s (walk.end_ - 1) = space then ([.read (walk.end_ - 1)], walk)
        else ([.read (walk.end_ - 1)], { walk with i := walk.i + 2, point := .put })
      else ([], { walk with i := walk.i + 2, point := .put })
  | .put =>
      if walk.fieldName = [] then ([], { walk with point := .fields }) else check s walk
  | .digits j =>
      if j < walk.end_ then
        if isDigit (byteAt s j) then ([.read j], { walk with point := .digits (j + 1) })
        else ([.read j], walk.finish (-6))
      else ([], { walk with point := .insert })
  | .insert =>
      let cur := checkField walk.fieldName
      if needs cur ∧ walk.bgn < walk.end_ then
        (reads walk.bgn walk.end_,
          if (walk.headerFields.value cur).isSome then walk.finish (-7)
          else { walk with
            headerFields := walk.headerFields ++ [(cur, slice s walk.bgn walk.end_)]
            point := .fields })
      else ([], { walk with point := .fields })
  | .done _ => ([], walk)

def run (needs : Field → Bool) (s : List Byte) : Nat → Walk
  | 0 => {}
  | steps + 1 => (step needs s (run needs s steps)).2

section Slices

variable {s : List Byte}

theorem byteAt_eq {i : Nat} (inside : i < s.length) : s[i]? = some (byteAt s i) := by
  simp [byteAt, inside]

theorem drop_byteAt {i : Nat} (inside : i < s.length) :
    s.drop i = byteAt s i :: s.drop (i + 1) := by
  rw [List.drop_eq_getElem_cons inside]
  simp [byteAt, inside]

@[simp] theorem slice_self (s : List Byte) (bgn : Nat) : slice s bgn bgn = [] := by
  simp [slice]

theorem slice_length {bgn end_ : Nat} (inside : bgn < end_ → end_ ≤ s.length) :
    (slice s bgn end_).length = end_ - bgn := by
  rw [slice, List.length_take, List.length_drop]
  omega

theorem slice_succ {bgn i : Nat} (order : bgn ≤ i) (inside : i < s.length) :
    slice s bgn (i + 1) = slice s bgn i ++ [byteAt s i] := by
  have length : i + 1 - bgn = (i - bgn) + 1 := by omega
  have last : (s.drop bgn)[i - bgn]? = some (byteAt s i) := by
    rw [List.getElem?_drop, show bgn + (i - bgn) = i by omega, byteAt_eq inside]
  rw [slice, length, List.take_add_one, last]
  rfl

end Slices

def Access.InBounds (len : Nat) : Access → Prop
  | .read k => k < len
  | .write k => k < fieldNameMaxLen + 1
  | .difference end_ bgn => bgn ≤ end_

/-- What is known about the indices at each point. Behind a name that reaches the end of the
buffer `i` is one more than its length, and behind the value three more; a part that is not
empty lies in the buffer all the same. -/
def Inside (s : List Byte) (walk : Walk) : Prop :=
  match walk.point with
  | .version => walk.i = 0
  | .status =>
      walk.bgn ≤ walk.i ∧ walk.i ≤ s.length ∧
        ∀ byte ∈ slice s walk.bgn walk.i, isDigit byte = true
  | .reason | .key => walk.bgn ≤ walk.i ∧ walk.i ≤ s.length
  | .blanks => walk.i ≤ s.length + 1
  | .value => walk.bgn ≤ walk.i ∧ walk.i ≤ s.length + 1 ∧ (walk.bgn < walk.i → walk.i ≤ s.length)
  | .trim =>
      walk.bgn ≤ walk.end_ ∧ walk.i ≤ s.length + 1 ∧ (walk.bgn < walk.end_ → walk.end_ ≤ s.length)
  | .put | .insert =>
      walk.bgn ≤ walk.end_ ∧ walk.i ≤ s.length + 3 ∧ (walk.bgn < walk.end_ → walk.end_ ≤ s.length)
  | .digits j =>
      walk.bgn ≤ j ∧ j ≤ walk.end_ ∧ walk.i ≤ s.length + 3 ∧ walk.end_ ≤ s.length
  | .fields | .done _ => walk.i ≤ s.length + 3

section Bounds

variable {needs : Field → Bool} {s : List Byte} {walk : Walk}

theorem reads_inBounds {bgn end_ len : Nat} (inside : bgn < end_ → end_ ≤ len) :
    ∀ access ∈ reads bgn end_, access.InBounds len := by
  intro access member
  obtain ⟨k, range, rfl⟩ := List.mem_map.mp member
  rw [List.mem_range'_1] at range
  change k < len
  omega

theorem endReads_inBounds {i : Nat} (inside : i + 1 < s.length) :
    ∀ access ∈ endReads s i, access.InBounds s.length := by
  intro access member
  simp only [endReads, List.mem_cons] at member
  rcases member with rfl | second
  · change i < s.length
    omega
  · split at second
    · rw [List.mem_singleton] at second
      rw [second]
      exact inside
    · cases second

theorem writes_inBounds {size len : Nat} (fits : size ≤ fieldNameMaxLen) :
    ∀ access ∈ (List.range (size + 1)).map Access.write, access.InBounds len := by
  intro access member
  obtain ⟨k, range, rfl⟩ := List.mem_map.mp member
  rw [List.mem_range] at range
  change k < fieldNameMaxLen + 1
  omega

theorem takeWhile_length_le {kind : Byte → Bool} {bytes : List Byte} {k : Nat}
    (stop : kind (bytes.getD k 0) = false) (inside : k < bytes.length) :
    (bytes.takeWhile kind).length ≤ k := by
  induction bytes generalizing k with
  | nil => simp
  | cons byte rest ih =>
      cases k with
      | zero =>
          rw [List.getD_cons_zero] at stop
          simp [stop]
      | succ k =>
          rw [List.getD_cons_succ] at stop
          have shorter := ih stop (by simpa using inside)
          cases same : kind byte <;> simp [same]
          exact shorter

def Safe (s : List Byte) (made : List Access × Walk) : Prop :=
  (∀ access ∈ made.1, access.InBounds s.length) ∧ Inside s made.2

theorem finish_safe (ret : Int) (low : walk.i ≤ s.length + 3) :
    Safe s ([], walk.finish ret) :=
  ⟨by simp, low⟩

theorem statusEnd_safe (inside : walk.i < s.length → byteAt s walk.i = space)
    (low : walk.i ≤ s.length) : Safe s (walk.statusEnd s) := by
  unfold Walk.statusEnd
  split
  · exact finish_safe (-2) (by omega)
  · rename_i full
    rw [not_or, ne_eq, not_not] at full
    have last : walk.i < s.length := by omega
    constructor
    · apply reads_inBounds
      intro _
      have stop : isDigit ((s.drop walk.bgn).getD 3 0) = false := by
        have blank := inside last
        rw [full.1] at blank
        rw [List.getD_eq_getElem?_getD, List.getElem?_drop, ← List.getD_eq_getElem?_getD]
        unfold byteAt at blank
        rw [blank]
        decide
      have few : ((s.drop walk.bgn).takeWhile isDigit).length ≤ 3 :=
        takeWhile_length_le stop (by rw [List.length_drop]; omega)
      unfold Walk.atoiDigits
      omega
    · exact ⟨Nat.le_refl _, last⟩

theorem reasonEnd_safe (low : walk.i ≤ s.length) : Safe s (walk.reasonEnd s) := by
  unfold Walk.reasonEnd
  split
  · exact finish_safe (-3) (by omega)
  · constructor
    · apply reads_inBounds
      intro _
      exact low
    · change walk.i + 2 ≤ s.length + 3
      omega

theorem keyEnd_safe (inside : walk.bgn ≤ walk.i) (low : walk.i ≤ s.length) :
    Safe s (walk.keyEnd s) := by
  have next : walk.i + 1 ≤ s.length + 1 := by omega
  simp only [Walk.keyEnd]
  split
  · exact finish_safe (-5) (by omega)
  · split
    · rename_i fits
      refine ⟨?_, next⟩
      intro access member
      rw [List.cons_append, List.mem_cons, List.mem_append] at member
      rcases member with rfl | name | cell
      · exact inside
      · exact reads_inBounds (fun _ => low) access name
      · exact writes_inBounds fits access cell
    · refine ⟨?_, next⟩
      intro access member
      rw [List.mem_cons, List.mem_singleton] at member
      rcases member with rfl | rfl
      · exact inside
      · change 0 < fieldNameMaxLen + 1
        omega

theorem check_safe (order : walk.bgn ≤ walk.end_) (low : walk.i ≤ s.length + 3)
    (buffered : walk.bgn < walk.end_ → walk.end_ ≤ s.length) : Safe s (walk.check s) := by
  have kept : Inside s { walk with point := .insert } := ⟨order, low, buffered⟩
  unfold Walk.check
  split
  · exact ⟨by simp, low⟩
  · split
    · rename_i some_
      exact ⟨by simp, Nat.le_refl _, order, low, buffered some_⟩
    · exact finish_safe (-6) low
  · split
    · rename_i seven
      constructor
      · intro access member
        rw [List.mem_cons] at member
        rcases member with rfl | part
        · exact order
        · have whole := buffered (by omega)
          exact reads_inBounds (fun _ => by omega) access part
      · dsimp only
        split
        · exact kept
        · exact low
    · refine ⟨?_, low⟩
      intro access member
      rw [List.mem_singleton] at member
      rw [member]
      exact order
  · exact ⟨by simp, kept⟩

/-- The accesses of a loop's test come before those of what stands behind the loop. -/
theorem safe_append {before : List Access} {made : List Access × Walk}
    (test : ∀ access ∈ before, access.InBounds s.length) (safe : Safe s made) :
    Safe s (before ++ made.1, made.2) := by
  refine ⟨?_, safe.2⟩
  intro access member
  rcases List.mem_append.mp member with first | second
  · exact test access first
  · exact safe.1 access second

theorem read_inBounds {k : Nat} (inside : k < s.length) :
    ∀ access ∈ [Access.read k], access.InBounds s.length := by
  intro access member
  rw [List.mem_singleton] at member
  rw [member]
  exact inside

theorem step_safe (inside : Inside s walk) : Safe s (step needs s walk) := by
  unfold Inside at inside
  unfold step
  cases point : walk.point with
  | version =>
      rw [point] at inside
      dsimp only at inside ⊢
      split
      · exact finish_safe (-1) (by omega)
      · rename_i long
        -- the nine bytes of the version are compared behind the test of the length
        refine ⟨reads_inBounds fun _ => by omega, ?_⟩
        dsimp only
        split
        · exact ⟨Nat.le_refl 9, by simpa using long, by simp⟩
        · change walk.i ≤ s.length + 3
          omega
  | status =>
      rw [point] at inside
      obtain ⟨order, low, digits⟩ := inside
      dsimp only
      split
      · rename_i more
        split
        · rename_i digit
          refine ⟨read_inBounds more, ?_⟩
          simp only [Inside]
          refine ⟨by omega, by omega, ?_⟩
          rw [slice_succ order more]
          exact List.forall_mem_append.mpr ⟨digits, by simpa using digit⟩
        · split
          · rename_i blank
            exact safe_append (read_inBounds more) (statusEnd_safe (fun _ => blank) low)
          · exact ⟨read_inBounds more, by change walk.i ≤ _; omega⟩
      · rename_i none_
        exact statusEnd_safe (fun more => absurd more none_) low
  | reason =>
      rw [point] at inside
      obtain ⟨order, low⟩ := inside
      dsimp only
      split
      · rename_i more
        split
        · exact safe_append (endReads_inBounds more) (reasonEnd_safe low)
        · split
          · refine ⟨endReads_inBounds more, ?_⟩
            simp only [Inside]
            omega
          · exact ⟨endReads_inBounds more, by change walk.i ≤ _; omega⟩
      · exact reasonEnd_safe low
  | fields =>
      rw [point] at inside
      dsimp only at inside ⊢
      split
      · rename_i more
        split
        · refine ⟨endReads_inBounds more, ?_⟩
          dsimp only
          split <;> (change walk.i + 2 ≤ _; omega)
        · exact ⟨endReads_inBounds more, Nat.le_refl _, by change walk.i ≤ _; omega⟩
      · exact finish_safe (-4) inside
  | key =>
      rw [point] at inside
      obtain ⟨order, low⟩ := inside
      dsimp only
      split
      · rename_i more
        split
        · refine ⟨read_inBounds more, ?_⟩
          simp only [Inside]
          omega
        · split
          · exact safe_append (read_inBounds more) (keyEnd_safe order low)
          · exact ⟨read_inBounds more, by change walk.i ≤ _; omega⟩
      · exact keyEnd_safe order low
  | blanks =>
      rw [point] at inside
      dsimp only at inside ⊢
      have value : Inside s { walk with bgn := walk.i, point := .value } :=
        ⟨Nat.le_refl _, inside, fun some_ => absurd some_ (Nat.lt_irrefl _)⟩
      split
      · rename_i more
        split
        · refine ⟨read_inBounds more, ?_⟩
          simp only [Inside]
          omega
        · exact ⟨read_inBounds more, value⟩
      · exact ⟨by simp, value⟩
  | value =>
      rw [point] at inside
      obtain ⟨order, low, buffered⟩ := inside
      dsimp only
      have trim : Inside s { walk with end_ := walk.i, point := .trim } := ⟨order, low, buffered⟩
      split
      · rename_i more
        split
        · exact ⟨endReads_inBounds more, trim⟩
        · refine ⟨endReads_inBounds more, ?_⟩
          simp only [Inside]
          omega
      · exact ⟨by simp, trim⟩
  | trim =>
      rw [point] at inside
      obtain ⟨order, low, buffered⟩ := inside
      dsimp only
      have put : Inside s { walk with i := walk.i + 2, point := .put } :=
        ⟨order, by change walk.i + 2 ≤ _; omega, buffered⟩
      split
      · rename_i some_
        -- a value that is not empty ends inside the buffer
        have last : walk.end_ - 1 < s.length := by
          have whole := buffered some_
          omega
        split
        · refine ⟨read_inBounds last, ?_⟩
          simp only [Inside, point]
          exact ⟨order, low, buffered⟩
        · exact ⟨read_inBounds last, put⟩
      · exact ⟨by simp, put⟩
  | put =>
      rw [point] at inside
      obtain ⟨order, low, buffered⟩ := inside
      dsimp only
      split
      · exact ⟨by simp, low⟩
      · exact check_safe order low buffered
  | digits j =>
      rw [point] at inside
      obtain ⟨first, order, low, buffered⟩ := inside
      dsimp only
      split
      · rename_i more
        have here : j < s.length := by omega
        split
        · exact ⟨read_inBounds here, by change walk.bgn ≤ j + 1; omega, more, low, buffered⟩
        · exact ⟨read_inBounds here, low⟩
      · exact ⟨by simp, by change walk.bgn ≤ walk.end_; omega, low, fun _ => buffered⟩
  | insert =>
      rw [point] at inside
      obtain ⟨order, low, buffered⟩ := inside
      dsimp only
      split
      · refine ⟨reads_inBounds buffered, ?_⟩
        dsimp only
        split
        · exact low
        · exact low
      · exact ⟨by simp, low⟩
  | done ret =>
      rw [point] at inside
      refine ⟨by simp, ?_⟩
      simp only [Inside, point]
      exact inside

theorem run_inside (needs : Field → Bool) (s : List Byte) (steps : Nat) :
    Inside s (run needs s steps) := by
  induction steps with
  | zero => exact rfl
  | succ steps ih => exact (step_safe ih).2

theorem inside_low (inside : Inside s walk) : walk.i ≤ s.length + 3 := by
  unfold Inside at inside
  cases point : walk.point <;> rw [point] at inside <;> dsimp only at inside <;> omega

end Bounds

/-- At every step of its walk over any buffer `http_rsp_parse` reads inside the buffer, writes
inside `field_name`, and subtracts no index from a smaller one; the index itself stays at most
three behind the end. -/
theorem http_rsp_parse_in_bounds (needs : Field → Bool) (s : List Byte) (steps : Nat) :
    (∀ access ∈ (step needs s (run needs s steps)).1, access.InBounds s.length) ∧
      (run needs s steps).i ≤ s.length + 3 :=
  ⟨(step_safe (run_inside needs s steps)).1, inside_low (run_inside needs s steps)⟩

end Cocoflow.HttpWalk
