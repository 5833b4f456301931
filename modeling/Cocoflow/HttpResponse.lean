import Mathlib.Data.List.Basic
import Cocoflow.TcpConnection

/-!
The parsers of the HTTP client (extensions/http/cocoflow-http.cc): `http_rsp_parse` for the
head of a response and `http_chunk_parse` for the line before a chunk. Both walk over the
buffer with an index; here the walk is over the bytes that are left, `s[i..len)`. The loop
that should trim a value that ends in a space does not change its variable, so such a head
has no result.
-/

namespace Cocoflow.HttpResponse

open TcpConnection

def text (string : String) : List Byte := string.toList.map fun char => char.toNat.toUInt8

def crlf : List Byte := [13, 10]

def space : Byte := 32

section Characters

def isDigit (byte : Byte) : Bool := 48 ≤ byte && byte ≤ 57

def isLower (byte : Byte) : Bool := 97 ≤ byte && byte ≤ 122

def isUpper (byte : Byte) : Bool := 65 ≤ byte && byte ≤ 90

def isHex (byte : Byte) : Bool :=
  isDigit byte || (97 ≤ byte && byte ≤ 102) || (65 ≤ byte && byte ≤ 70)

def lowercase (byte : Byte) : Byte := if isUpper byte then byte + 32 else byte

def isReason (byte : Byte) : Bool :=
  isLower byte || isUpper byte || byte == space || byte == 45

def isKey (byte : Byte) : Bool := isDigit byte || isLower byte || isUpper byte || byte == 45

end Characters

section Numbers

def decimal (digits : List Byte) : Nat :=
  digits.foldl (fun value byte => 10 * value + (byte.toNat - 48)) 0

def hexDigit (byte : Byte) : Nat :=
  if isDigit byte then byte.toNat - 48
  else if 97 ≤ byte then byte.toNat - 87
  else byte.toNat - 55

def hexadecimal (digits : List Byte) : Nat :=
  digits.foldl (fun value byte => 16 * value + hexDigit byte) 0

/-- `sscanf` into a `size_t` stops at the largest value. -/
def saturate (value : Nat) : Nat := min value (2 ^ 64 - 1)

end Numbers

inductive Field where
  | unknown | accept | acceptCharset | acceptEncoding | acceptLanguage | acceptRanges | age
  | allow | authorization | cacheControl | connection | contentEncoding | contentLanguage
  | contentLength | contentLocation | contentMD5 | contentRange | contentType | date | eTag
  | expect | expires | from | host | ifMatch | ifModifiedSince | ifNoneMatch | ifRange
  | ifUnmodifiedSince | lastModified | location | maxForwards | pragma | proxyAuthenticate
  | proxyAuthorization | range | referer | retryAfter | server | te | trailer
  | transferEncoding | upgrade | userAgent | vary | via | warning | wwwAuthenticate
  deriving DecidableEq

def fieldSeekArrays : List (String × Field) :=
  [("accept", .accept), ("accept-charset", .acceptCharset),
    ("accept-encoding", .acceptEncoding), ("accept-language", .acceptLanguage),
    ("accept-ranges", .acceptRanges), ("age", .age), ("allow", .allow),
    ("authorization", .authorization), ("cache-control", .cacheControl),
    ("connection", .connection), ("content-encoding", .contentEncoding),
    ("content-language", .contentLanguage), ("content-length", .contentLength),
    ("content-location", .contentLocation), ("content-md5", .contentMD5),
    ("content-range", .contentRange), ("content-type", .contentType), ("date", .date),
    ("etag", .eTag), ("expect", .expect), ("expires", .expires), ("from", .from),
    ("host", .host), ("if-match", .ifMatch), ("if-modified-since", .ifModifiedSince),
    ("if-none-match", .ifNoneMatch), ("if-range", .ifRange),
    ("if-unmodified-since", .ifUnmodifiedSince), ("last-modified", .lastModified),
    ("location", .location), ("max-forwards", .maxForwards), ("pragma", .pragma),
    ("proxy-authenticate", .proxyAuthenticate), ("proxy-authorization", .proxyAuthorization),
    ("range", .range), ("referer", .referer), ("retry-after", .retryAfter),
    ("server", .server), ("te", .te), ("trailer", .trailer),
    ("transfer-encoding", .transferEncoding), ("upgrade", .upgrade),
    ("user-agent", .userAgent), ("vary", .vary), ("via", .via), ("warning", .warning),
    ("www-authenticate", .wwwAuthenticate)]

/-- `std::lower_bound` finds the first name that is not less. -/
def checkField (name : List Byte) : Field :=
  match fieldSeekArrays.dropWhile fun unit => text unit.1 < name with
  | [] => .unknown
  | unit :: _ => if text unit.1 = name then unit.2 else .unknown

abbrev Fields := List (Field × List Byte)

def Fields.value (fields : Fields) (field : Field) : Option (List Byte) :=
  (fields.find? fun entry => entry.1 = field).map Prod.snd

structure Head where
  statusCode : Nat
  reasonPhrase : List Byte
  headerFields : Fields
  deriving DecidableEq

section StatusLine

/-- The loop over the status code: `none` at a character that is neither a digit nor SP. -/
def scanStatus : List Byte → Option (List Byte × List Byte)
  | [] => some ([], [])
  | byte :: rest =>
      if isDigit byte then (scanStatus rest).map fun (digits, left) => (byte :: digits, left)
      else if byte = space then some ([], byte :: rest)
      else none

/-- The loop over the reason phrase, up to a CRLF or to the last byte. -/
def scanReason : List Byte → Option (List Byte × List Byte)
  | byte :: other :: rest =>
      if byte = 13 ∧ other = 10 then some ([], byte :: other :: rest)
      else if isReason byte then
        (scanReason (other :: rest)).map fun (phrase, left) => (byte :: phrase, left)
      else none
  | short => some ([], short)

def version : List Byte := text "HTTP/1.1 "

def statusLine (s : List Byte) : Except Int (Nat × List Byte × List Byte) :=
  if s.take 9 ≠ version then .error (-1)
  else match scanStatus (s.drop 9) with
  | none => .error (-2)
  | some (digits, left) =>
      if digits.length ≠ 3 ∨ left = [] then .error (-2)
      else match scanReason (left.drop 1) with
      | none => .error (-3)
      | some (phrase, left) =>
          if phrase = [] ∨ left.length = 1 then .error (-3)
          else .ok (decimal digits, phrase, left.drop 2)

end StatusLine

section Header

/-- The loop over the name of a field: `none` at an illegal character. -/
def scanKey : List Byte → Option (List Byte × List Byte)
  | [] => some ([], [])
  | byte :: rest =>
      if isKey byte then (scanKey rest).map fun (key, left) => (byte :: key, left)
      else if byte = 58 then some ([], byte :: rest)
      else none

/-- The loop over a value, up to a CRLF or to the last byte. -/
def scanValue : List Byte → List Byte × List Byte
  | byte :: other :: rest =>
      if byte = 13 ∧ other = 10 then ([], byte :: other :: rest)
      else
        let scanned := scanValue (other :: rest)
        (byte :: scanned.1, scanned.2)
  | short => ([], short)

def fieldNameMaxLen : Nat := 19

def legalValue (field : Field) (value : List Byte) : Bool :=
  match field with
  | .contentLength => !value.isEmpty && value.all isDigit
  | .transferEncoding => value == text "chunked"
  | _ => true

def putField (needs : Field → Bool) (key value : List Byte) (fields : Fields) :
    Except Int Fields :=
  if fieldNameMaxLen < key.length then .ok fields
  else
    let cur := checkField (key.map lowercase)
    if cur = .unknown then .ok fields
    else if !legalValue cur value then .error (-6)
    else if needs cur && !value.isEmpty then
      if (fields.value cur).isSome then .error (-7) else .ok (fields ++ [(cur, value)])
    else .ok fields

def headerLine (needs : Field → Bool) (s : List Byte) (fields : Fields) :
    Option (Except Int (List Byte × Fields)) :=
  match scanKey s with
  | none => some (.error (-5))
  | some (key, left) =>
      if key = [] then some (.error (-5))
      else
        let scanned := scanValue ((left.drop 1).dropWhile fun byte => byte = space)
        if scanned.1.getLast? = some space then none
        else match putField needs key scanned.1 fields with
        | .error ret => some (.error ret)
        | .ok fields => some (.ok (scanned.2.drop 2, fields))

/-- The loop over the fields; every turn takes at least one byte. -/
def headerLoop (needs : Field → Bool) : Nat → List Byte → Fields →
    Option (Except Int (List Byte × Fields))
  | 0, _, _ => none
  | fuel + 1, s, fields =>
      if s.length < 2 then some (.error (-4))
      else if s.take 2 = crlf then some (.ok (s.drop 2, fields))
      else match headerLine needs s fields with
      | some (.ok (left, fields)) => headerLoop needs fuel left fields
      | other => other

def httpRspParse (needs : Field → Bool) (s : List Byte) : Option (Except Int Head) :=
  match statusLine s with
  | .error ret => some (.error ret)
  | .ok (statusCode, reasonPhrase, left) =>
      match headerLoop needs (left.length + 1) left [] with
      | none => none
      | some (.error ret) => some (.error ret)
      | some (.ok (left, headerFields)) =>
          if left ≠ [] then some (.error (-4))
          else some (.ok {
            statusCode := statusCode
            reasonPhrase := reasonPhrase
            headerFields := headerFields })

end Header

section Chunk

/-- The loop over the chunk size, up to a CRLF, a semicolon or the last byte. -/
def scanSize : List Byte → Option (List Byte × List Byte)
  | byte :: other :: rest =>
      if (byte = 13 ∧ other = 10) ∨ byte = 59 then some ([], byte :: other :: rest)
      else if isHex byte then
        (scanSize (other :: rest)).map fun (digits, left) => (byte :: digits, left)
      else none
  | short => some ([], short)

def httpChunkParse (s : List Byte) : Except Int Nat :=
  match scanSize s with
  | none => .error (-1)
  | some (digits, left) =>
      if digits = [] ∨ left.length = 1 then .error (-1)
      else .ok (saturate (hexadecimal digits))

end Chunk

end Cocoflow.HttpResponse
