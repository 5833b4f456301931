import Mathlib.Data.List.Basic
import Cocoflow.TcpConnection
import Cocoflow.HttpResponse

/-!
`url_parse` of the HTTP client (extensions/http/cocoflow-http.cc). The string is the list of its
bytes with the final NUL, a pointer into it is a position, and a null pointer is `none`. A loop
is given the bytes from its `p` on. Reading behind the NUL has no value, and neither has a parse
that does it.
-/

namespace Cocoflow.UrlParse

open TcpConnection HttpResponse

section Characters

def colon : Byte := 58

def slash : Byte := 47

def question : Byte := 63

def hash : Byte := 35

def atSign : Byte := 64

def isProtocol (byte : Byte) : Bool :=
  isLower byte || isUpper byte || isDigit byte || byte == 46 || byte == 43 || byte == 45

def isHost (byte : Byte) : Bool :=
  isLower byte || isUpper byte || isDigit byte || byte == 46 || byte == 95 || byte == 45

def isHostEnd (byte : Byte) : Bool :=
  byte == 0 || byte == slash || byte == question || byte == hash

end Characters

structure Parts where
  protocol : List Byte := []
  user : List Byte := []
  password : List Byte := []
  host : List Byte := []
  port : Int := 0
  path : List Byte := []
  query : List Byte := []
  comment : List Byte := []
  deriving DecidableEq

/-- An early return carries its code and what was written before it. -/
abbrev Parse := ExceptT (Int × Parts) Option

def outside {α : Type} : Parse α := ExceptT.mk none

def fetch (url : List Byte) (p : Nat) : Parse Byte :=
  match url[p]? with
  | some byte => pure byte
  | none => outside

section Protocol

def protocolEnd : Nat → List Byte → Parse Nat
  | _, [] => outside
  | p, byte :: rest =>
      if byte = 0 ∨ byte = colon then pure p
      else if isProtocol byte then protocolEnd (p + 1) rest
      else throw (-1, {})

/-- The second byte is only read behind a first slash. -/
def slashes (url : List Byte) (p : Nat) : Parse Bool := do
  let first ← fetch url (p + 1)
  if first ≠ slash then pure false
  else do
    let second ← fetch url (p + 2)
    pure (second == slash)

end Protocol

structure Marks where
  userBgn : Option Nat := none
  userEnd : Option Nat := none
  passBgn : Option Nat := none
  passEnd : Option Nat := none
  hostBgn : Option Nat := none
  hostEnd : Option Nat := none
  portBgn : Option Nat := none
  portEnd : Option Nat := none
  deriving DecidableEq

namespace Marks

def close (marks : Marks) (p : Nat) : Marks :=
  if marks.userBgn = some p then { marks with userBgn := none }
  else if marks.userEnd = none then
    { marks with hostBgn := marks.userBgn, hostEnd := some p, userBgn := none }
  else if marks.passBgn ≠ none ∧ marks.passEnd = none then
    { marks with
      hostBgn := marks.userBgn
      hostEnd := marks.userEnd
      portBgn := marks.passBgn
      portEnd := some p
      userBgn := none
      passBgn := none }
  else if marks.hostEnd = none then { marks with hostEnd := some p }
  else { marks with portEnd := some p }

def metColon (marks : Marks) (p : Nat) : Except Int Marks :=
  if marks.hostBgn = none then
    if marks.userEnd = none then
      .ok { marks with userEnd := some p, passBgn := some (p + 1) }
    else .error (-4)
  else if marks.hostEnd = none then
    .ok { marks with hostEnd := some p, portBgn := some (p + 1) }
  else .error (-5)

def metAt (marks : Marks) (p : Nat) : Except Int Marks :=
  if marks.userEnd = none then .ok { marks with userEnd := some p, hostBgn := some (p + 1) }
  else if marks.passBgn ≠ none ∧ marks.passEnd = none then
    .ok { marks with passEnd := some p, hostBgn := some (p + 1) }
  else .error (-6)

end Marks

section Authority

def authorityEnd (parts : Parts) : Marks → Nat → List Byte → Parse (Nat × Marks)
  | _, _, [] => outside
  | marks, p, byte :: rest =>
      if isHostEnd byte then pure (p, marks.close p)
      else if byte = colon then
        match marks.metColon p with
        | .ok marks => authorityEnd parts marks (p + 1) rest
        | .error code => throw (code, parts)
      else if byte = atSign then
        match marks.metAt p with
        | .ok marks => authorityEnd parts marks (p + 1) rest
        | .error code => throw (code, parts)
      else authorityEnd parts marks (p + 1) rest

/-- `append(bgn, end)`, which is left out for a null or an empty range. -/
def range (url : List Byte) : Option Nat → Option Nat → Parse (List Byte)
  | none, _ => pure []
  | some bgn, some stop =>
      if bgn ≤ stop ∧ stop ≤ url.length then pure ((url.take stop).drop bgn) else outside
  | some _, none => outside

/-- `strtol` saturates at the largest `long` and the conversion to `int` keeps 32 bits. The
caller has seen a digit, so there is no sign and no space. -/
def atoi (bytes : List Byte) : Int :=
  Int.bmod (min (decimal (bytes.takeWhile isDigit)) (2 ^ 63 - 1) : Nat) (2 ^ 32)

def appendHost (parts : Parts) (host : List Byte) : Parse Parts :=
  if host.all isHost then pure { parts with host := host.map lowercase }
  else throw (-7, parts)

/-- `portBgn` shows the bytes from the pointer on. -/
def appendPort (parts : Parts) (digits portBgn : List Byte) : Parse Parts :=
  if digits = [] then pure parts
  else if digits.all isDigit then
    let parts := { parts with port := atoi portBgn }
    if parts.port ≤ 0 ∨ 65535 < parts.port then throw (-9, parts) else pure parts
  else throw (-8, parts)

def authorityParts (url : List Byte) (marks : Marks) (parts : Parts) : Parse Parts := do
  let user ← range url marks.userBgn marks.userEnd
  let password ← range url marks.passBgn marks.passEnd
  let host ← range url marks.hostBgn marks.hostEnd
  let parts ← appendHost { parts with user := user, password := password } host
  let digits ← range url marks.portBgn marks.portEnd
  appendPort parts digits (url.drop (marks.portBgn.getD 0))

end Authority

section Tail

/-- A loop that breaks at the final NUL or at one of `stops`. -/
def seek (stops : List Byte) : Nat → List Byte → Parse Nat
  | _, [] => outside
  | p, byte :: rest =>
      if byte = 0 ∨ byte ∈ stops then pure p else seek stops (p + 1) rest

def qstrBgn (byte : Byte) (p : Nat) : Option Nat :=
  if byte = question then some (p + 1) else none

def noteBgn (byte : Byte) (p : Nat) : Option Nat := if byte = hash then some (p + 1) else none

def pathPart (url : List Byte) (p : Nat) :
    Parse (List Byte × Nat × Option Nat × Option Nat) := do
  let byte ← fetch url p
  if byte = slash then
    let stop ← seek [question, hash] p (url.drop p)
    let path ← range url (some p) (some stop)
    let last ← fetch url stop
    pure (path, stop, qstrBgn last stop, noteBgn last stop)
  else pure ([], p, qstrBgn byte p, noteBgn byte p)

def queryPart (url : List Byte) (p : Nat) (bgn note : Option Nat) :
    Parse (List Byte × Nat × Option Nat) := do
  if bgn = none then pure ([], p, note)
  else
    let stop ← seek [hash] p (url.drop p)
    let query ← range url bgn (some stop)
    let last ← fetch url stop
    pure (query, stop, if last = hash then some (stop + 1) else note)

def commentPart (url : List Byte) (p : Nat) (bgn : Option Nat) : Parse (List Byte) := do
  if bgn = none then pure []
  else
    let stop ← seek [] p (url.drop p)
    range url bgn (some stop)

def tailParts (url : List Byte) (p : Nat) (parts : Parts) : Parse Parts := do
  let (path, p, query, note) ← pathPart url p
  let path := if path = [] then [slash] else path
  let (query, p, note) ← queryPart url p query note
  let comment ← commentPart url p note
  pure { parts with path := path, query := query, comment := comment }

end Tail

def urlParse (url : List Byte) : Parse Parts := do
  let p ← protocolEnd 0 url
  let last ← fetch url p
  if last = 0 ∨ p = 0 then throw (-2, {})
  else
    let parts : Parts := { protocol := (url.take p).map lowercase }
    let found ← slashes url p
    if !found then throw (-3, parts)
    else
      let p := p + 3
      let (p, marks) ← authorityEnd parts { userBgn := some p } p (url.drop p)
      let parts ← authorityParts url marks parts
      tailParts url p parts

example : (urlParse (text "HTTP://Ab.c:80/x?y#z" ++ [0])).run = some (.ok
    { protocol := text "http", host := text "ab.c", port := 80, path := text "/x",
      query := text "y", comment := text "z" }) := by decide

end Cocoflow.UrlParse
