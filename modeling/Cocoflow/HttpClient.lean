import Mathlib.Data.List.Basic
import Cocoflow.LabelledRuns
import Cocoflow.TcpConnection
import Cocoflow.FirstMatch
import Cocoflow.RecvTill
import Cocoflow.ByteConservation
import Cocoflow.OneShotReceive
import Cocoflow.HttpResponse

/-!
`http::get` and `http::post` (extensions/http/cocoflow-http.cc). Between two awaits the task
runs without interruption, so it is a machine with one step for each outcome of an await. A
`recv_till` gets what `OneShotReceive` says: the bytes of the one-shot reading of what the
peer sends. `url_parse` is an argument, and the text of the request is left out.

`len` is the caller's variable; it is also the length that the `recv_till` for a body of known
length is given. A `recv_till` of length 0 does not pass its `CHECK`.
-/

namespace Cocoflow.HttpClient

open LabelledRuns TcpConnection OneShotReceive HttpResponse

section Codes

def unfinished : Int := -1
def errUrlParse : Int := -2
def errDnsResolve : Int := -3
def errTcpConnect : Int := -4
def errSendRequest : Int := -5
def errRecvResponse : Int := -6
def errResponseHeaderParse : Int := -7
def errResponseBodyParse : Int := -8
def errResponseBodyTooLong : Int := -9

def success : Int := 0

end Codes

section Messages

def urlMessage : Int → String
  | -1 => "Illegal character in protocol"
  | -2 => "Missing protocol"
  | -3 => "Missing \"//\""
  | -4 | -5 => "Illegal \":\""
  | -6 => "Illegal \"@\""
  | -7 => "Illegal character in host"
  | -8 => "Illegal character in port"
  | -9 => "Illegal value in port"
  | _ => "Failed in url parse"

def headMessage : Int → String
  | -1 => "Illegal http version"
  | -2 => "Illegal status code"
  | -3 => "Illegal reason phrase"
  | -4 => "Illegal header end"
  | -5 => "Illegal field key"
  | -6 => "Illegal field value"
  | -7 => "Duplicate field"
  | _ => "Failed in http response parse"

def statusSeekArrays : List (Nat × String) :=
  [(100, "Continue"), (101, "Switching Protocols"), (200, "OK"), (201, "Created"),
    (202, "Accepted"), (203, "Non-Authoritative Information"), (204, "No Content"),
    (205, "Reset Content"), (206, "Partial Content"), (300, "Multiple Choices"),
    (301, "Moved Permanently"), (302, "Found"), (303, "See Other"), (304, "Not Modified"),
    (305, "Use Proxy"), (307, "Temporary Redirect"), (400, "Bad Request"),
    (401, "Unauthorized"), (402, "Payment Required"), (403, "Forbidden"),
    (404, "Not Found"), (405, "Method Not Allowed"), (406, "Not Acceptable"),
    (407, "Proxy Authentication Required"), (408, "Request Timeout"), (409, "Conflict"),
    (410, "Gone"), (411, "Length Required"), (412, "Precondition Failed"),
    (413, "Request Entity Too Large"), (414, "Request-URI Too Long"),
    (415, "Unsupported Media Type"), (416, "Requested Range Not Satisfiable"),
    (417, "Expectation Failed"), (500, "Internal Server Error"), (501, "Not Implemented"),
    (502, "Bad Gateway"), (503, "Service Unavailable"), (504, "Gateway Timeout"),
    (505, "HTTP Version Not Supported")]

/-- `std::lower_bound` finds the first code that is not less. -/
def checkStatus (statusCode : Nat) : String :=
  match statusSeekArrays.dropWhile fun unit => unit.1 < statusCode with
  | [] => "Unknown"
  | unit :: _ => if unit.1 = statusCode then unit.2 else "Unknown"

end Messages

def sizeAdd (left right : Nat) : Nat := (left + right) % 2 ^ 64

inductive Phase where
  | resolving | connecting | sendingHead | sendingBody
  | head
  | chunkSize (recved : Nat)
  | chunkData (recved chunkLen recvLen : Nat)
  | chunkEnd (recved : Nat)
  | body (bodyLen : Nat)
  | ended
  deriving DecidableEq

/-- The task. `posting` says that `post` has a body to send, `statusCode` is the local variable
of `__recv`, and `buf` shows the bytes written to the caller's buffer so far. -/
structure Client where
  phase : Phase
  posting : Bool
  ret : Int := unfinished
  len : Nat
  errmsg : Option String := none
  buf : List Byte := []
  statusCode : Nat := 0
  deriving DecidableEq

/-- What `url_parse` gives back with 0 and `__url_parse` looks at. -/
structure Url where
  protocol : List Byte
  user : List Byte
  password : List Byte
  host : List Byte

namespace Client

/-- The exits that leave nothing in the buffer. -/
def fail (client : Client) (ret : Int) (errmsg : String) : Client :=
  { client with phase := .ended, ret := ret, len := 0, errmsg := some errmsg }

/-- The last lines of `__recv`. -/
def finish (client : Client) : Client :=
  { client with
    phase := .ended
    ret := client.statusCode
    errmsg := some (checkStatus client.statusCode) }

def tooLong (client : Client) : Client :=
  { client with
    phase := .ended
    ret := errResponseBodyTooLong
    errmsg := some "Response body is too long" }

def start (posting : Bool) (len : Nat) (url : Except Int Url) : Client :=
  let client : Client := { phase := .resolving, posting := posting, len := len }
  match url with
  | .error ret => client.fail errUrlParse (urlMessage ret)
  | .ok url =>
      if url.protocol ≠ text "http" then
        client.fail errUrlParse "Only supported protocol \"http\""
      else if url.user ≠ [] ∨ url.password ≠ [] then
        client.fail errUrlParse "Unsupported user/password"
      else if url.host = [] then client.fail errUrlParse "Missing host"
      else client

def resolved (client : Client) (ret : Int) (errmsg : String) : Client :=
  if ret ≠ 0 then
    client.fail errDnsResolve (if errmsg ≠ "" then errmsg else "Failed in dns resolve")
  else { client with phase := .connecting }

def connected (client : Client) (ret : Int) : Client :=
  if ret ≠ success then client.fail errTcpConnect "Failed in tcp connect"
  else { client with phase := .sendingHead }

def sentHead (client : Client) (ret : Int) : Client :=
  if ret ≠ success then client.fail errSendRequest "Failed in http send header"
  else { client with phase := if client.posting then .sendingBody else .head }

def sentBody (client : Client) (ret : Int) : Client :=
  if ret ≠ success then client.fail errSendRequest "Failed in http send body"
  else { client with phase := .head }

def tmpSize : Nat := 4096

def needs : Field → Bool
  | .contentLength | .transferEncoding => true
  | _ => false

def request (client : Client) : Option (Nat × Option (List Byte)) :=
  match client.phase with
  | .head => some (tmpSize, some [13, 10, 13, 10])
  | .chunkSize _ => some (tmpSize, some crlf)
  | .chunkData _ _ recvLen => some (recvLen, none)
  | .chunkEnd _ => some (2, none)
  | .body _ => some (client.len, none)
  | _ => none

/-- `__recv` behind `http_rsp_parse`. -/
def parsed (client : Client) (head : Head) : Client :=
  let client := { client with statusCode := head.statusCode }
  if client.len = 0 then client.finish
  else if (head.headerFields.value .transferEncoding).isSome then
    { client with phase := .chunkSize 0 }
  else match head.headerFields.value .contentLength with
  | none =>
      client.fail errResponseHeaderParse "Missing \"Content-Length\"/\"Transfer-Encoding\""
  | some value =>
      let bodyLen := saturate (decimal value)
      if 0 < bodyLen then
        { client with
          phase := .body bodyLen
          len := if bodyLen < client.len then bodyLen else client.len }
      else { client with len := 0 }.finish

/-- The head is there; `none` when its parser does not return. -/
def gotHead (client : Client) (bytes : List Byte) : Option Client :=
  match httpRspParse needs bytes with
  | none => none
  | some (.error ret) => some (client.fail errResponseHeaderParse (headMessage ret))
  | some (.ok head) => some (client.parsed head)

def recvLen (client : Client) (recved chunkLen : Nat) : Nat :=
  if client.len < sizeAdd recved chunkLen then sizeSub client.len recved else chunkLen

def gotSize (client : Client) (recved : Nat) (bytes : List Byte) : Client :=
  match httpChunkParse bytes with
  | .error _ => client.fail errResponseBodyParse "Illegal chunk"
  | .ok chunkLen =>
      if chunkLen = 0 then { client with len := recved }.finish
      else { client with phase := .chunkData recved chunkLen (client.recvLen recved chunkLen) }

def gotData (client : Client) (recved chunkLen recvLen : Nat) (bytes : List Byte) : Client :=
  let client := { client with buf := client.buf ++ bytes }
  let recved := sizeAdd recved recvLen
  if recvLen < chunkLen then { client with len := recved }.tooLong
  else { client with phase := .chunkEnd recved }

def gotEnd (client : Client) (recved : Nat) (bytes : List Byte) : Client :=
  if bytes ≠ crlf then client.fail errResponseBodyParse "Illegal chunk"
  else { client with phase := .chunkSize recved }

def gotBody (client : Client) (bodyLen : Nat) (bytes : List Byte) : Client :=
  let client := { client with buf := bytes }
  if client.len < bodyLen then client.tooLong else client.finish

def received (client : Client) (bytes : List Byte) : Option Client :=
  match client.phase with
  | .head => client.gotHead bytes
  | .chunkSize recved => some (client.gotSize recved bytes)
  | .chunkData recved chunkLen recvLen => some (client.gotData recved chunkLen recvLen bytes)
  | .chunkEnd recved => some (client.gotEnd recved bytes)
  | .body bodyLen => some (client.gotBody bodyLen bytes)
  | _ => none

def unreceived (client : Client) : Option Client :=
  match client.phase with
  | .head => some (client.fail errRecvResponse "Failed in http recv header")
  | .chunkSize _ | .chunkData _ _ _ | .chunkEnd _ =>
      some (client.fail errRecvResponse "Failed in http recv body(chunked)")
  | .body _ => some (client.fail errRecvResponse "Failed in http recv body")
  | _ => none

/-- `get::cancel` and `post::cancel`; `ret` stays as it is. -/
def cancel (client : Client) : Client :=
  { client with phase := .ended, len := 0, errmsg := some "It was canceled" }

end Client

/-- A task and what the peer is still going to send. -/
structure Session where
  client : Client
  stream : List Byte
  deriving DecidableEq

inductive Label where
  | resolved (ret : Int) (errmsg : String)
  | connected (ret : Int)
  | sent (ret : Int)
  | received
  | failed
  | cancel

def Receives (client : Client) : Prop :=
  match client.request with
  | some (capacity, _) => capacity ≠ 0
  | none => False

instance (client : Client) : Decidable (Receives client) :=
  match h : client.request with
  | some (capacity, _) => decidable_of_iff (capacity ≠ 0) (by simp [Receives, h])
  | none => isFalse (by simp [Receives, h])

def arriving (session : Session) : Option (List Byte) :=
  session.client.request.bind fun (capacity, pattern) =>
    if capacity = 0 then none else oneShot capacity pattern session.stream

def step (session : Session) : Label → Option Session
  | .resolved ret errmsg =>
      if session.client.phase = .resolving then
        some { session with client := session.client.resolved ret errmsg }
      else none
  | .connected ret =>
      if session.client.phase = .connecting then
        some { session with client := session.client.connected ret }
      else none
  | .sent ret =>
      if session.client.phase = .sendingHead then
        some { session with client := session.client.sentHead ret }
      else if session.client.phase = .sendingBody then
        some { session with client := session.client.sentBody ret }
      else none
  | .received =>
      (arriving session).bind fun bytes =>
        (session.client.received bytes).map fun client =>
          { client := client, stream := session.stream.drop bytes.length }
  | .failed =>
      if Receives session.client then
        session.client.unreceived.map fun client => { session with client := client }
      else none
  | .cancel =>
      if session.client.phase = .ended ∨
          (session.client.request.isSome ∧ ¬Receives session.client) then none
      else some { session with client := session.client.cancel }

end Cocoflow.HttpClient
