import Mathlib.Data.List.Basic
import Mathlib.Data.List.TakeWhile
import Cocoflow.TcpConnection
import Cocoflow.TextLines
import Cocoflow.HttpResponse
import Cocoflow.UrlParse
import Cocoflow.UrlPieces
import Cocoflow.UrlGrammar
import Cocoflow.HttpRequest

/-!
How a server reads the head of a request. The host has no character that separates anything,
but `url_parse` takes every byte for the path and for the query, and the client sends them as
they are.
-/

namespace Cocoflow.RequestReading

open TcpConnection TextLines HttpResponse UrlParse UrlPieces HttpRequest

section Reader

/-- The lines before the empty line and the bytes behind it; `line` has been read already. -/
def readLines (line : List Byte) : List Byte → Option (List (List Byte) × List Byte)
  | first :: second :: rest =>
      if first = 13 ∧ second = 10 then
        if line = [] then some ([], rest)
        else (readLines [] rest).map fun (lines, more) => (line :: lines, more)
      else readLines (line ++ [first]) (second :: rest)
  | _ => none

/-- A name and, behind a colon and a space, a value. -/
def readHeader (line : List Byte) : List Byte × List Byte :=
  (line.takeWhile (· != colon), (line.dropWhile (· != colon)).drop 2)

/-- The words of the request line, the headers and the bytes behind the head. -/
structure Reading where
  words : List (List Byte)
  headers : List (List Byte × List Byte)
  rest : List Byte
  deriving DecidableEq

def readHead (bytes : List Byte) : Option Reading :=
  match readLines [] bytes with
  | some (first :: others, rest) =>
      some ⟨first.splitOn space, others.map readHeader, rest⟩
  | _ => none

end Reader

def lengthHeader : Method → List (List Byte × List Byte)
  | .get => []
  | .post plen => [(text "Content-Length", dec plen.toNat)]

def intended (parts : Parts) (method : Method) : Reading where
  words := [verb method, target parts, httpVersion]
  headers := (text "Host", authority parts) :: lengthHeader method
  rest := []

def Terminated (bytes : List Byte) (lines : List (List Byte)) : Prop :=
  bytes = page 13 10 lines ∧ ∀ line ∈ lines, ∀ byte ∈ line, byte ≠ 13 ∧ byte ≠ 10

/-- Nothing in the head but its own format separates lines or words. -/
structure Intact (parts : Parts) (method : Method) : Prop where
  terminated : Terminated (formatted parts method) (lines parts method)
  read : readHead (formatted parts method) = some (intended parts method)

/-- The path and the query have no CR, no LF and no space. -/
def Unspaced (parts : Parts) : Prop :=
  ∀ byte ∈ parts.path ++ parts.query, byte ≠ 13 ∧ byte ≠ 10 ∧ byte ≠ space

theorem readLines_line {line bytes rest : List Byte}
    (clean : ∀ byte ∈ bytes, byte ≠ 13) :
    readLines line (bytes ++ 13 :: 10 :: rest) = readLines (line ++ bytes) (13 :: 10 :: rest) := by
  induction bytes generalizing line with
  | nil => simp
  | cons byte others ih =>
      have apart := clean byte (by simp)
      have later : ∀ other ∈ others, other ≠ 13 := fun other member => clean other (by simp [member])
      have walked : readLines line (byte :: (others ++ 13 :: 10 :: rest)) =
          readLines (line ++ [byte]) (others ++ 13 :: 10 :: rest) := by
        cases others with
        | nil => rw [List.nil_append, readLines, if_neg fun hit => apart hit.1]
        | cons next more => rw [List.cons_append, readLines, if_neg fun hit => apart hit.1]
      rw [List.cons_append, walked, ih later, List.append_assoc, List.singleton_append]

theorem readLines_page {lines : List (List Byte)} (rest : List Byte)
    (clean : ∀ line ∈ lines, line ≠ [] ∧ ∀ byte ∈ line, byte ≠ 13) :
    readLines [] (page 13 10 lines ++ rest) = some (lines, rest) := by
  induction lines with
  | nil => simp [page, readLines]
  | cons line others ih =>
      obtain ⟨nonempty, own⟩ := clean line (by simp)
      rw [page_cons, List.append_assoc, List.cons_append, List.cons_append, readLines_line own,
        List.nil_append, readLines, if_pos ⟨rfl, rfl⟩, if_neg nonempty,
        ih fun other member => clean other (by simp [member])]
      rfl

theorem readHeader_line {name : List Byte} (value : List Byte) (colonless : colon ∉ name) :
    readHeader (name ++ colon :: space :: value) = (name, value) := by
  have apart : ∀ byte ∈ name, (byte != colon) = true := by
    intro byte member
    simpa using fun same : byte = colon => colonless (same ▸ member)
  unfold readHeader
  rw [List.takeWhile_append_of_pos apart, List.dropWhile_append_of_pos apart]
  simp

theorem words_iff {first middle last : List Byte} (before : space ∉ first) (after : space ∉ last) :
    (first ++ space :: (middle ++ space :: last)).splitOn space = [first, middle, last] ↔
      space ∉ middle := by
  rw [List.splitOn_append_cons_self, List.splitOn_append_cons_self,
    List.splitOn_eq_singleton before, List.splitOn_eq_singleton after]
  constructor
  · intro words member
    obtain ⟨left, right, rfl⟩ := List.append_of_mem member
    rw [List.splitOn_append_cons_self] at words
    have lengths := congrArg List.length words
    have leftWord := List.length_pos_iff.mpr (List.splitOn_ne_nil space left)
    have rightWord := List.length_pos_iff.mpr (List.splitOn_ne_nil space right)
    simp only [List.length_append, List.length_cons, List.length_nil] at lengths
    omega
  · intro absent
    rw [List.splitOn_eq_singleton absent]
    rfl

section Bytes

def Quiet (byte : Byte) : Prop := byte ≠ 13 ∧ byte ≠ 10 ∧ byte ≠ space

instance (byte : Byte) : Decidable (Quiet byte) := inferInstanceAs (Decidable (_ ∧ _))

theorem host_quiet {byte : Byte} (host : isHost byte = true) : Quiet byte := by
  refine ⟨?_, ?_, ?_⟩ <;> rintro rfl <;> exact absurd host (by decide)

theorem digit_quiet {byte : Byte} (digit : isDigit byte = true) : Quiet byte := by
  refine ⟨?_, ?_, ?_⟩ <;> rintro rfl <;> exact absurd digit (by decide)

theorem quiet_of_all {bytes : List Byte} (all : bytes.all (fun byte => decide (Quiet byte)) = true) :
    ∀ byte ∈ bytes, Quiet byte := by
  simpa using all

theorem unended_of_all {bytes : List Byte}
    (all : bytes.all (fun byte => decide (byte ≠ 13 ∧ byte ≠ 10)) = true) :
    ∀ byte ∈ bytes, byte ≠ 13 ∧ byte ≠ 10 := by
  simpa using all

theorem verb_quiet (method : Method) : ∀ byte ∈ verb method, Quiet byte := by
  cases method with
  | get => exact quiet_of_all (show (text "GET").all _ = true by decide)
  | post plen => exact quiet_of_all (show (text "POST").all _ = true by decide)

theorem dec_digits (value : Nat) : ∀ byte ∈ dec value, isDigit byte = true := by
  intro byte member
  obtain ⟨char, inside, rfl⟩ := List.mem_map.mp member
  have digit := Nat.isDigit_of_mem_toDigits (by decide) (by decide) inside
  have range : 48 ≤ char.toNat ∧ char.toNat ≤ 57 := by
    simp only [Char.isDigit, Bool.and_eq_true, decide_eq_true_eq] at digit
    exact ⟨UInt32.le_iff_toNat_le.mp digit.1, UInt32.le_iff_toNat_le.mp digit.2⟩
  have small : char.toNat.toUInt8.toNat = char.toNat := by
    rw [Nat.toUInt8_eq, UInt8.toNat_ofNat']
    omega
  have limits : (48 : UInt8).toNat = 48 ∧ (57 : UInt8).toNat = 57 := by decide
  simp only [isDigit, Bool.and_eq_true, decide_eq_true_eq, UInt8.le_iff_toNat_le, small]
  omega

theorem authority_quiet {parts : Parts} (printable : Printable parts) :
    ∀ byte ∈ authority parts, Quiet byte := by
  intro byte member
  rcases List.mem_append.mp member with host | port
  · exact host_quiet (printable.host byte host)
  · split at port
    · cases port
    · rcases List.mem_cons.mp port with rfl | digits
      · decide
      · exact digit_quiet (dec_digits _ byte digits)

theorem target_unspaced (parts : Parts) :
    Unspaced parts ↔ ∀ byte ∈ target parts, Quiet byte := by
  unfold target
  constructor
  · intro unspaced byte member
    rcases List.mem_append.mp member with path | query
    · exact unspaced byte (List.mem_append_left _ path)
    · split at query
      · cases query
      · rcases List.mem_cons.mp query with rfl | inside
        · decide
        · exact unspaced byte (List.mem_append_right _ inside)
  · intro quiet byte member
    rcases List.mem_append.mp member with path | query
    · exact quiet byte (List.mem_append_left _ path)
    · have present : parts.query ≠ [] := List.ne_nil_of_mem query
      rw [if_neg present] at quiet
      exact quiet byte (by simp [query])

end Bytes

theorem headers_intended {parts : Parts} (printable : Printable parts) (method : Method) :
    ∃ others, lines parts method = requestLine parts method :: others ∧
      others.map readHeader = (text "Host", authority parts) :: lengthHeader method ∧
      ∀ line ∈ others, line ≠ [] ∧ ∀ byte ∈ line, byte ≠ 13 ∧ byte ≠ 10 := by
  have hostShape : hostLine parts = text "Host" ++ colon :: space :: authority parts := by
    have name : text "Host: " = text "Host" ++ [colon, space] := by decide
    rw [hostLine, name, List.append_assoc]
    rfl
  have hostClean : hostLine parts ≠ [] ∧ ∀ byte ∈ hostLine parts, byte ≠ 13 ∧ byte ≠ 10 := by
    refine ⟨by simp [hostShape], fun byte member => ?_⟩
    rcases List.mem_append.mp member with name | value
    · exact unended_of_all (show (text "Host: ").all _ = true by decide) byte name
    · obtain ⟨cr, lf, -⟩ := authority_quiet printable byte value
      exact ⟨cr, lf⟩
  have host : readHeader (hostLine parts) = (text "Host", authority parts) := by
    rw [hostShape]
    exact readHeader_line _ (by decide)
  cases method with
  | get =>
      refine ⟨[hostLine parts], rfl, congrArg (· :: []) host, fun line member => ?_⟩
      rw [List.mem_singleton.mp member]
      exact hostClean
  | post plen =>
      have lengthShape : lengthLine plen =
          text "Content-Length" ++ colon :: space :: dec plen.toNat := by
        have name : text "Content-Length: " = text "Content-Length" ++ [colon, space] := by decide
        rw [lengthLine, name, List.append_assoc]
        rfl
      have length : readHeader (lengthLine plen) = (text "Content-Length", dec plen.toNat) := by
        rw [lengthShape]
        exact readHeader_line _ (by decide)
      refine ⟨[hostLine parts, lengthLine plen], rfl, ?_, fun line member => ?_⟩
      · simp only [List.map_cons, List.map_nil, host, length]
        rfl
      · rcases List.mem_cons.mp member with rfl | last
        · exact hostClean
        · rw [List.mem_singleton.mp last]
          refine ⟨by simp [lengthShape], fun byte inside => ?_⟩
          rcases List.mem_append.mp inside with name | value
          · exact unended_of_all (show (text "Content-Length: ").all _ = true by decide) byte name
          · obtain ⟨cr, lf, -⟩ := digit_quiet (dec_digits _ byte value)
            exact ⟨cr, lf⟩

theorem requestLine_target {parts : Parts} {method : Method} :
    (∀ byte ∈ requestLine parts method, byte ≠ 13 ∧ byte ≠ 10) ↔
      ∀ byte ∈ target parts, byte ≠ 13 ∧ byte ≠ 10 := by
  constructor
  · intro clean byte member
    exact clean byte (by simp [requestLine, member])
  · intro clean byte member
    rcases List.mem_append.mp member with name | behind
    · exact ⟨(verb_quiet method byte name).1, (verb_quiet method byte name).2.1⟩
    · rcases List.mem_cons.mp behind with rfl | later
      · decide
      · rcases List.mem_append.mp later with inside | ending
        · exact clean byte inside
        · exact unended_of_all (show (space :: httpVersion).all _ = true by decide) byte ending

/-- The request is read back as it was meant exactly when the path and the query hold no CR,
no LF and no space. -/
theorem head_intact_iff (url : List Byte) (clean : (0 : Byte) ∉ url) (parts : Parts)
    (parsed : UrlParsed url parts) (method : Method) :
    Intact parts method ↔ Unspaced parts := by
  have printable := parsed.printable clean
  obtain ⟨others, shape, headers, quiet⟩ := headers_intended printable method
  have head := formatted_complete printable method
  unfold completeHead at head
  have verbWord : space ∉ verb method := fun member => (verb_quiet method _ member).2.2 rfl
  have read (ends : ∀ byte ∈ target parts, byte ≠ 13 ∧ byte ≠ 10) :
      readHead (formatted parts method) =
        some ⟨(requestLine parts method).splitOn space, others.map readHeader, []⟩ := by
    have whole : ∀ line ∈ lines parts method, line ≠ [] ∧ ∀ byte ∈ line, byte ≠ 13 := by
      rw [shape]
      intro line member
      rcases List.mem_cons.mp member with rfl | later
      · exact ⟨by simp [requestLine], fun byte inside =>
          (requestLine_target.mpr ends byte inside).1⟩
      · exact ⟨(quiet line later).1, fun byte inside => ((quiet line later).2 byte inside).1⟩
    have walked := readLines_page [] whole
    rw [List.append_nil, ← head, shape] at walked
    rw [readHead, walked]
  rw [target_unspaced]
  constructor
  · intro intact byte member
    have terminated := intact.terminated.2 (requestLine parts method) (by simp [shape])
    have ends := requestLine_target.mp terminated
    have words := (read ends).symm.trans intact.read
    simp only [intended, Option.some.injEq, Reading.mk.injEq] at words
    have spaceless := (words_iff verbWord (by decide)).mp words.1
    obtain ⟨cr, lf⟩ := ends byte member
    exact ⟨cr, lf, fun same => spaceless (same ▸ member)⟩
  · intro unspaced
    have ends : ∀ byte ∈ target parts, byte ≠ 13 ∧ byte ≠ 10 :=
      fun byte member => ⟨(unspaced byte member).1, (unspaced byte member).2.1⟩
    refine ⟨⟨head, ?_⟩, ?_⟩
    · rw [shape]
      intro line member
      rcases List.mem_cons.mp member with rfl | later
      · exact requestLine_target.mpr ends
      · exact (quiet line later).2
    · have spaceless : space ∉ target parts := fun member => (unspaced _ member).2.2 rfl
      rw [read ends, headers, requestLine, (words_iff verbWord (by decide)).mpr spaceless]
      rfl

def plainParts : Parts :=
  { protocol := text "http", host := text "h", path := text "/x", query := text "y=1" }

theorem head_intact_plain : Intact plainParts (.post 3) := by
  have parsed : UrlParsed (text "http://h/x?y=1") plainParts :=
    ⟨by decide, by decide, rfl, rfl, by decide⟩
  refine (head_intact_iff _ (by decide) plainParts parsed (.post 3)).mpr ?_
  exact quiet_of_all (by decide)

/-- A URL that brings its own header. -/
def splitParts : Parts :=
  { protocol := text "http", host := text "h", path := text "/ HTTP/1.1\r\nX:" }

theorem head_split : ¬∀ (url : List Byte) (parts : Parts) (method : Method),
    (0 : Byte) ∉ url → UrlParsed url parts → Intact parts method := by
  intro claimed
  have parsed : UrlParsed (text "http://h/ HTTP/1.1\r\nX:") splitParts :=
    ⟨by decide, by decide, rfl, rfl, by decide⟩
  have intact := claimed _ splitParts .get (by decide) parsed
  have line : requestLine splitParts .get ∈ lines splitParts .get := by simp [lines]
  exact absurd rfl (intact.terminated.2 _ line 13 (by decide)).1

end Cocoflow.RequestReading
