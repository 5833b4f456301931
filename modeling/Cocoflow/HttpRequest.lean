import Mathlib.Data.List.Basic
import Cocoflow.TcpConnection
import Cocoflow.TextLines
import Cocoflow.HttpResponse
import Cocoflow.HttpClient
import Cocoflow.UrlParse
import Cocoflow.UrlPieces
import Cocoflow.UrlGrammar

/-!
The head of a request: `get::run` and `post::run` format it with one of eight `snprintf` into an
array of 4096 bytes. A format is given as the function of its arguments that it denotes. What
has to be sent is the page of the lines `requestLine`, `hostLine` and `lengthLine`. The results
speak of URLs that `__url_parse` accepts (`UrlParsed`); that these are the ones with which the
client of `HttpClient` goes on is `start_iff`, which no proof needs.
-/

namespace Cocoflow.HttpRequest

open TcpConnection TextLines HttpResponse UrlParse UrlPieces UrlGrammar

section Printf

/-- `%s` reads up to the NUL. -/
def percentS (string : List Byte) : List Byte := string.takeWhile (· != 0)

def dec (value : Nat) : List Byte :=
  (Nat.toDigits 10 value).map fun char => char.toNat.toUInt8

def percentD (value : Int) : List Byte :=
  if value < 0 then 45 :: dec value.natAbs else dec value.natAbs

def percentZu (value : UInt64) : List Byte := dec value.toNat

/-- The returned `int` and what is written to the array: the text as far as it fits before a
NUL. A text that is too long for an `int` is an error. -/
def snprintf (size : Nat) (formatted : List Byte) : Int × List Byte :=
  (if formatted.length < 2 ^ 31 then (formatted.length : Int) else -1,
    formatted.take (size - 1) ++ [0])

end Printf

section Formats

def getWithQuery (path query : List Byte) : List Byte :=
  text "GET " ++ percentS path ++ text "?" ++ percentS query ++ text " HTTP/1.1\r\n"

def getWithoutQuery (path : List Byte) : List Byte :=
  text "GET " ++ percentS path ++ text " HTTP/1.1\r\n"

def postWithQuery (path query : List Byte) : List Byte :=
  text "POST " ++ percentS path ++ text "?" ++ percentS query ++ text " HTTP/1.1\r\n"

def postWithoutQuery (path : List Byte) : List Byte :=
  text "POST " ++ percentS path ++ text " HTTP/1.1\r\n"

def hostWithPort (host : List Byte) (port : Int) : List Byte :=
  text "Host: " ++ percentS host ++ text ":" ++ percentD port ++ text "\r\n"

def hostWithoutPort (host : List Byte) : List Byte :=
  text "Host: " ++ percentS host ++ text "\r\n"

def contentLength (plen : UInt64) : List Byte :=
  text "Content-Length: " ++ percentZu plen ++ text "\r\n"

end Formats

inductive Method where
  | get
  | post (plen : UInt64)
  deriving DecidableEq

def getHead (parts : Parts) : List Byte :=
  if parts.port ≠ 0 ∧ parts.query ≠ [] then
    getWithQuery parts.path parts.query ++ hostWithPort parts.host parts.port ++ crlf
  else if parts.query ≠ [] then
    getWithQuery parts.path parts.query ++ hostWithoutPort parts.host ++ crlf
  else if parts.port ≠ 0 then
    getWithoutQuery parts.path ++ hostWithPort parts.host parts.port ++ crlf
  else getWithoutQuery parts.path ++ hostWithoutPort parts.host ++ crlf

def postHead (parts : Parts) (plen : UInt64) : List Byte :=
  if parts.port ≠ 0 ∧ parts.query ≠ [] then
    postWithQuery parts.path parts.query ++ hostWithPort parts.host parts.port ++
      contentLength plen ++ crlf
  else if parts.query ≠ [] then
    postWithQuery parts.path parts.query ++ hostWithoutPort parts.host ++
      contentLength plen ++ crlf
  else if parts.port ≠ 0 then
    postWithoutQuery parts.path ++ hostWithPort parts.host parts.port ++
      contentLength plen ++ crlf
  else
    postWithoutQuery parts.path ++ hostWithoutPort parts.host ++ contentLength plen ++ crlf

def formatted (parts : Parts) : Method → List Byte
  | .get => getHead parts
  | .post plen => postHead parts plen

/-- The `CHECK` behind `snprintf` and the bytes that `tcp::send` is given. -/
def handed (parts : Parts) (method : Method) : Option (List Byte) :=
  let (bytes, tmp) := snprintf HttpClient.Client.tmpSize (formatted parts method)
  if 0 < bytes ∧ bytes ≤ HttpClient.Client.tmpSize then some (tmp.take bytes.toNat) else none

section Client

def clientUrl (parts : Parts) : HttpClient.Url :=
  ⟨parts.protocol, parts.user, parts.password, parts.host⟩

/-- `__client::__url_parse` succeeds. -/
structure UrlParsed (url : List Byte) (parts : Parts) : Prop where
  accepted : (urlParse (url ++ [0])).run = some (.ok parts)
  protocol : parts.protocol = text "http"
  user : parts.user = []
  password : parts.password = []
  host : parts.host ≠ []

/-- Then, and only then, the task goes on. -/
theorem start_iff {url : List Byte} {parts : Parts} (posting : Bool) (len : Nat)
    (accepted : (urlParse (url ++ [0])).run = some (.ok parts)) :
    (HttpClient.Client.start posting len (.ok (clientUrl parts))).phase = .resolving ↔
      UrlParsed url parts := by
  unfold HttpClient.Client.start clientUrl
  dsimp only
  constructor
  · intro onward
    split at onward
    · cases onward
    · rename_i protocol
      split at onward
      · cases onward
      · rename_i login
        split at onward
        · cases onward
        · rename_i host
          exact ⟨accepted, not_not.mp protocol, not_not.mp fun user => login (Or.inl user),
            not_not.mp fun password => login (Or.inr password), host⟩
  · intro parsed
    rw [if_neg (not_not.mpr parsed.protocol), if_neg, if_neg parsed.host]
    rintro (user | password)
    · exact user parsed.user
    · exact password parsed.password

end Client

section Head

def target (parts : Parts) : List Byte :=
  parts.path ++ if parts.query = [] then [] else question :: parts.query

def verb : Method → List Byte
  | .get => text "GET"
  | .post _ => text "POST"

def httpVersion : List Byte := text "HTTP/1.1"

def requestLine (parts : Parts) (method : Method) : List Byte :=
  verb method ++ space :: (target parts ++ space :: httpVersion)

def authority (parts : Parts) : List Byte :=
  parts.host ++ if parts.port = 0 then [] else colon :: dec parts.port.toNat

def hostLine (parts : Parts) : List Byte := text "Host: " ++ authority parts

def lengthLine (plen : UInt64) : List Byte := text "Content-Length: " ++ dec plen.toNat

def lines (parts : Parts) (method : Method) : List (List Byte) :=
  match method with
  | .get => [requestLine parts .get, hostLine parts]
  | .post plen => [requestLine parts (.post plen), hostLine parts, lengthLine plen]

def completeHead (parts : Parts) (method : Method) : List Byte :=
  page 13 10 (lines parts method)

end Head

structure Printable (parts : Parts) : Prop where
  path : (0 : Byte) ∉ parts.path
  query : (0 : Byte) ∉ parts.query
  host : ∀ byte ∈ parts.host, isHost byte = true
  port : 0 ≤ parts.port

theorem lowercase_host (byte : Byte) (host : isHost byte = true) :
    isHost (lowercase byte) = true := by
  unfold lowercase
  split
  · rename_i upper
    have lower : isLower (byte + 32) = true := by
      simp only [isUpper, isLower, Bool.and_eq_true, decide_eq_true_eq, UInt8.le_iff_toNat_le,
        UInt8.toNat_add] at *
      have limits : (65 : UInt8).toNat = 65 ∧ (90 : UInt8).toNat = 90 ∧
        (97 : UInt8).toNat = 97 ∧ (122 : UInt8).toNat = 122 ∧ (32 : UInt8).toNat = 32 := by decide
      omega
    simp [isHost, lower]
  · exact host

theorem UrlParsed.printable {url : List Byte} {parts : Parts} (clean : (0 : Byte) ∉ url)
    (parsed : UrlParsed url parts) : Printable parts := by
  obtain ⟨pieces, formed, -, rfl⟩ := accepted_pieces clean parsed.accepted
  constructor
  case path =>
      intro zero
      rcases List.mem_cons.mp zero with zero | inside
      · exact absurd zero (by decide)
      · exact (formed.path 0 inside).1 rfl
  case query => exact fun zero => (formed.query 0 zero).1 rfl
  case host =>
      intro byte member
      obtain ⟨upper, inside, rfl⟩ := List.mem_map.mp member
      exact lowercase_host upper (formed.hostChars upper inside)
  case port =>
      unfold Pieces.parts
      dsimp only
      split
      · exact Int.le_refl 0
      · rename_i present
        have range := formed.portValue present
        omega

theorem percentS_clean {string : List Byte} (clean : (0 : Byte) ∉ string) :
    percentS string = string := by
  refine List.takeWhile_eq_self_iff.mpr fun byte member => ?_
  have apart : byte ≠ 0 := fun zero => clean (zero ▸ member)
  simpa using apart

theorem percentD_port {port : Int} (positive : 0 ≤ port) : percentD port = dec port.toNat := by
  have same : port.natAbs = port.toNat := by omega
  rw [percentD, if_neg (by omega), same]

theorem literals : text "GET " = text "GET" ++ [space] ∧ text "POST " = text "POST" ++ [space] ∧
    text " HTTP/1.1\r\n" = space :: (httpVersion ++ crlf) ∧ text "?" = [question] ∧
    text ":" = [colon] ∧ text "\r\n" = crlf := by decide

theorem formatted_complete {parts : Parts} (printable : Printable parts) (method : Method) :
    formatted parts method = completeHead parts method := by
  have path := percentS_clean printable.path
  have query := percentS_clean printable.query
  have host : percentS parts.host = parts.host :=
    percentS_clean fun zero => absurd (printable.host 0 zero) (by decide)
  have port := percentD_port printable.port
  obtain ⟨get, post, ending, mark, separator, newline⟩ := literals
  have crlf_bytes : crlf = [13, 10] := rfl
  cases method with
  | get =>
      simp only [formatted, getHead, completeHead, lines]
      by_cases ported : parts.port = 0 <;> by_cases asked : parts.query = [] <;>
        simp [ported, asked, getWithQuery, getWithoutQuery, hostWithPort, hostWithoutPort, path,
          query, host, port, get, ending, mark, separator, newline, page, requestLine, verb,
          target, hostLine, authority, crlf_bytes]
  | post plen =>
      simp only [formatted, postHead, completeHead, lines]
      by_cases ported : parts.port = 0 <;> by_cases asked : parts.query = [] <;>
        simp [ported, asked, postWithQuery, postWithoutQuery, hostWithPort, hostWithoutPort,
          contentLength, percentZu, path, query, host, port, post, ending, mark, separator,
          newline, page, requestLine, verb, target, hostLine, authority, lengthLine, crlf_bytes]

theorem formatted_ends (parts : Parts) (method : Method) :
    ∃ before, formatted parts method = before ++ crlf := by
  cases method with
  | get =>
      simp only [formatted, getHead]
      split
      · exact ⟨_, rfl⟩
      · split
        · exact ⟨_, rfl⟩
        · split
          · exact ⟨_, rfl⟩
          · exact ⟨_, rfl⟩
  | post plen =>
      simp only [formatted, postHead]
      split
      · exact ⟨_, rfl⟩
      · split
        · exact ⟨_, rfl⟩
        · split
          · exact ⟨_, rfl⟩
          · exact ⟨_, rfl⟩

/-- A text as long as the array is cut by the NUL, and the `CHECK` lets it pass. -/
theorem handed_iff {parts : Parts} {method : Method} {sent : List Byte}
    (passed : handed parts method = some sent) :
    sent = formatted parts method ↔ (formatted parts method).length < 4096 := by
  obtain ⟨before, ends⟩ := formatted_ends parts method
  unfold handed snprintf at passed
  rw [ends] at passed ⊢
  have limit : HttpClient.Client.tmpSize = 4096 := rfl
  have short : (before ++ crlf).length < 2 ^ 31 := by
    by_contra long
    simp only [if_neg long] at passed
    simp at passed
  simp only [if_pos short, limit] at passed
  split at passed
  · rename_i checked
    cases passed
    have fits : (before ++ crlf).length ≤ 4096 := by omega
    constructor
    · intro same
      by_contra full
      -- the array ends in a NUL where the text ends in a line feed
      have last := congrArg List.getLast? same
      have width : ((before ++ crlf).take (4096 - 1) ++ [0]).length = (before ++ crlf).length := by
        rw [List.length_append, List.length_take_of_le (by omega), List.length_singleton]
        omega
      rw [Int.toNat_natCast, ← width, List.take_length, List.getLast?_concat] at last
      simp [crlf] at last
    · intro small
      have whole : (before ++ crlf).take (4096 - 1) = before ++ crlf :=
        List.take_of_length_le (by omega)
      rw [Int.toNat_natCast, whole, List.take_left]
  · cases passed

theorem handed_passes {parts : Parts} {method : Method}
    (fits : (formatted parts method).length ≤ 4096) :
    ∃ sent, handed parts method = some sent := by
  obtain ⟨before, ends⟩ := formatted_ends parts method
  have positive : 0 < (formatted parts method).length := by
    rw [ends, List.length_append]
    exact Nat.add_pos_right _ (by decide)
  have limit : HttpClient.Client.tmpSize = 4096 := rfl
  have short : (formatted parts method).length < 2 ^ 31 := by omega
  have passes : (0 : Int) < (formatted parts method).length ∧
      ((formatted parts method).length : Int) ≤ (4096 : Nat) := by omega
  simp only [handed, snprintf, if_pos short, limit, if_pos passes]
  exact ⟨_, rfl⟩

/-- What passes the `CHECK` is the complete head exactly when this leaves room for the NUL. -/
theorem sent_complete_iff (url : List Byte) (clean : (0 : Byte) ∉ url) (parts : Parts)
    (parsed : UrlParsed url parts) (method : Method) (sent : List Byte)
    (passed : handed parts method = some sent) :
    sent = completeHead parts method ↔ (completeHead parts method).length < 4096 := by
  rw [← formatted_complete (parsed.printable clean)]
  exact handed_iff passed

def longPath (length : Nat) : Pieces where
  scheme := text "http"
  authority := { host := text "h" }
  path := some (List.replicate length 97)

theorem longPath_formed (length : Nat) : (longPath length).WellFormed where
  scheme := show text "http" ≠ [] by decide
  schemeChars := List.all_eq_true.mp (show (text "http").all isProtocol = true by decide)
  user := show Plain [] by decide
  password := show Plain [] by decide
  host := show Plain (text "h") by decide
  port := show Plain [] by decide
  path := by
    intro byte member
    rw [List.eq_of_mem_replicate member]
    decide
  query := show Free [hash] [] by decide
  fragment := show Free [] [] by decide
  hostChars := List.all_eq_true.mp (show (text "h").all isHost = true by decide)
  portChars := fun _ member => absurd member List.not_mem_nil
  portValue := fun present => absurd rfl present

theorem longPath_parsed (length : Nat) :
    (0 : Byte) ∉ (longPath length).text ∧ UrlParsed (longPath length).text (longPath length).parts := by
  constructor
  · intro zero
    have shape : (longPath length).text = text "http://h/" ++ List.replicate length 97 := by
      simp [longPath, Pieces.text, Pieces.tail, Authority.text, Authority.login]
      rfl
    rw [shape] at zero
    rcases List.mem_append.mp zero with inside | inside
    · revert inside
      decide
    · exact absurd (List.eq_of_mem_replicate inside) (by decide)
  · exact ⟨(accepted_iff (longPath_formed length).toSplit).mpr ⟨longPath_formed length, rfl⟩,
      show (text "http").map lowercase = text "http" by decide, rfl, rfl,
      show (text "h").map lowercase ≠ [] by decide⟩

theorem longPath_length (length : Nat) :
    (completeHead (longPath length).parts .get).length = length + 27 := by
  simp [completeHead, lines, page, requestLine, verb, target, hostLine, authority, longPath,
    Pieces.parts, Authority.portPart, httpVersion, text]

theorem sent_complete_short : ∃ sent, handed (longPath 0).parts .get = some sent ∧
    sent = completeHead (longPath 0).parts .get := by
  obtain ⟨clean, parsed⟩ := longPath_parsed 0
  have small : (completeHead (longPath 0).parts .get).length < 4096 := by
    rw [longPath_length]
    decide
  have fits : (formatted (longPath 0).parts .get).length ≤ 4096 := by
    rw [formatted_complete (parsed.printable clean)]
    exact Nat.le_of_lt small
  obtain ⟨sent, passed⟩ := handed_passes fits
  exact ⟨sent, passed, (sent_complete_iff _ clean _ parsed .get sent passed).mpr small⟩

/-- A head of 4096 bytes. -/
theorem sent_incomplete : ¬∀ (url : List Byte) (parts : Parts) (method : Method)
    (sent : List Byte), (0 : Byte) ∉ url → UrlParsed url parts →
    handed parts method = some sent → sent = completeHead parts method := by
  intro claimed
  obtain ⟨clean, parsed⟩ := longPath_parsed 4069
  have whole := formatted_complete (parsed.printable clean) .get
  have length := longPath_length 4069
  rw [← whole] at length
  obtain ⟨sent, passed⟩ := handed_passes (Nat.le_of_eq length)
  have same := claimed _ _ .get sent clean parsed passed
  rw [← whole] at same
  have small := (handed_iff passed).mp same
  omega

end Cocoflow.HttpRequest
