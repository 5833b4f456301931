import Mathlib.Data.List.Basic
import Cocoflow.LabelledRuns
import Cocoflow.TcpConnection
import Cocoflow.FirstMatch
import Cocoflow.RecvTill
import Cocoflow.OneShotReceive
import Cocoflow.SoleReceiver
import Cocoflow.HttpResponse
import Cocoflow.HttpHead
import Cocoflow.HttpClient
import Cocoflow.HttpBody
import Cocoflow.HttpTransfer
import Cocoflow.HttpPursuit

/-!
A response with a body that fits the caller's buffer is received, with its length in the head
or in chunks, and however its bytes are split into reads. What the caller finds depends on the
status code and on the body only. The window for a body or a chunk is offered with 32 bits of
its length, so this ends at 2^32 bytes.
-/

namespace Cocoflow.HttpDelivery

open LabelledRuns TcpConnection FirstMatch RecvTill OneShotReceive SoleReceiver HttpResponse
  HttpHead HttpClient HttpBody HttpTransfer HttpPursuit

inductive Content where
  | sized (body : List Byte)
  | chunked (chunks : List Chunk) (last : SizeLine)

namespace Content

def body : Content → List Byte
  | sized body => body
  | chunked chunks _ => decoded chunks

def bytes : Content → List Byte
  | sized body => body
  | chunked chunks last => encoded chunks ++ last.bytes

/-- The head says how the body is sent, and a size line fits the client's buffer. -/
def Announced (head : Head) : Content → Prop
  | sized body => head.headerFields.value .transferEncoding = none ∧
      ∃ value, head.headerFields.value .contentLength = some value ∧ decimal value = body.length
  | chunked chunks last => (head.headerFields.value .transferEncoding).isSome ∧
      last.size = 0 ∧ last.bytes.length ≤ Client.tmpSize ∧
      ∀ chunk ∈ chunks, chunk.line.bytes.length ≤ Client.tmpSize

/-- Nothing that is read in one piece has 2^32 bytes. -/
def Narrow : Content → Prop
  | sized body => body.length < 2 ^ 32
  | chunked chunks _ => ∀ chunk ∈ chunks, chunk.data.length < 2 ^ 32

end Content

/-- A response whose head `http_rsp_parse` accepts and the client's buffer holds. -/
structure Response where
  head : Head
  lines : List Byte
  content : Content
  accepted : httpRspParse Client.needs lines = some (.ok head)
  fits : lines.length ≤ Client.tmpSize
  announced : content.Announced head

namespace Response

def body (response : Response) : List Byte := response.content.body

def bytes (response : Response) : List Byte := response.lines ++ response.content.bytes

end Response

structure Obtained (response : Response) (client : Client) : Prop where
  ret : client.ret = response.head.statusCode
  len : client.len = response.body.length
  buf : client.buf = response.body

/-- The client is inside a chunked body: what it has, and what it wants. -/
structure Midway (response : Response) (capacity : Nat) (client : Client) (recved : Nat)
    (done todo : List Chunk) (last : SizeLine) : Prop where
  content : response.content = .chunked (done ++ todo) last
  status : client.statusCode = response.head.statusCode
  len : client.len = capacity
  buf : client.buf = decoded done
  count : recved = client.buf.length

def Awaits (response : Response) (capacity : Nat) (session : Session) : Prop :=
  let client := session.client
  match client.phase with
  | .head => client.len = capacity ∧ client.buf = [] ∧
      ∃ more, session.stream = response.lines ++ (response.content.bytes ++ more)
  | .chunkSize recved => ∃ done todo last more,
      Midway response capacity client recved done todo last ∧
        session.stream = encoded todo ++ (last.bytes ++ more)
  | .chunkData recved chunkLen recvLen => ∃ done chunk todo last more,
      Midway response capacity client recved done (chunk :: todo) last ∧
        chunkLen = chunk.data.length ∧ recvLen = chunk.data.length ∧
        session.stream = chunk.data ++ (crlf ++ (encoded todo ++ (last.bytes ++ more)))
  | .chunkEnd recved => ∃ done todo last more,
      Midway response capacity client recved done todo last ∧
        session.stream = crlf ++ (encoded todo ++ (last.bytes ++ more))
  | .body bodyLen => ∃ body more, response.content = .sized body ∧ bodyLen = body.length ∧
      client.len = body.length ∧ body ≠ [] ∧ client.statusCode = response.head.statusCode ∧
        session.stream = body ++ more
  | .ended => Obtained response client
  | _ => False

section Receiving

variable {response : Response} {capacity : Nat} {session : Session}

theorem awaits_parsed {client : Client} (len : client.len = capacity) (empty : client.buf = [])
    (room : response.body.length ≤ capacity) (positive : 0 < capacity) (fits : capacity < 2 ^ 64)
    (more : List Byte) :
    Awaits response capacity {
      client := client.parsed response.head
      stream := response.content.bytes ++ more } := by
  have announced := response.announced
  unfold Client.parsed
  dsimp only
  rw [if_neg (by omega)]
  cases content : response.content with
  | sized body =>
      rw [content] at announced
      obtain ⟨whole, value, held, size⟩ := announced
      have short : body.length ≤ capacity := by simpa [Response.body, content, Content.body] using room
      have exact_ : saturate (decimal value) = body.length := by
        rw [size]
        unfold saturate
        omega
      simp only [whole, Option.isSome_none, Bool.false_eq_true, if_false, held, exact_]
      split
      · rename_i some_
        refine ⟨body, more, content, rfl, ?_, ?_, rfl, rfl⟩
        · dsimp only
          split <;> omega
        · exact List.length_pos_iff.mp some_
      · rename_i none_
        obtain rfl : body = [] := List.length_eq_zero_iff.mp (by omega)
        refine ⟨rfl, ?_, ?_⟩
        · simp [Client.finish, Response.body, content, Content.body]
        · simp [Client.finish, Response.body, content, Content.body, empty]
  | chunked chunks last =>
      rw [content] at announced
      rw [if_pos announced.1]
      refine ⟨[], chunks, last, more, ⟨content, rfl, len, ?_, ?_⟩, ?_⟩
      · simpa [decoded] using empty
      · simp [empty]
      · simp [Content.bytes]

theorem midway_room {client : Client} {recved : Nat} {done todo : List Chunk} {last : SizeLine}
    (midway : Midway response capacity client recved done todo last)
    (room : response.body.length ≤ capacity) : recved + (decoded todo).length ≤ capacity := by
  have whole : response.body = decoded done ++ decoded todo := by
    simp [Response.body, midway.content, Content.body, decoded]
  rw [whole, List.length_append, ← midway.buf, ← midway.count] at room
  exact room

variable (awaits : Awaits response capacity session) (room : response.body.length ≤ capacity)
  (positive : 0 < capacity) (fits : capacity < 2 ^ 64)
include awaits

include room positive fits in
theorem finds_head (phase : session.client.phase = .head) : Finds (Awaits response capacity) session := by
  simp only [Awaits, phase] at awaits
  obtain ⟨len, empty, more, stream⟩ := awaits
  exact head_found phase response.accepted response.fits stream
    (awaits_parsed len empty room positive fits more)

include room fits in
theorem finds_size {recved : Nat} (phase : session.client.phase = .chunkSize recved) :
    Finds (Awaits response capacity) session := by
  simp only [Awaits, phase] at awaits
  obtain ⟨done, todo, last, more, midway, stream⟩ := awaits
  have announced := response.announced
  rw [midway.content] at announced
  obtain ⟨-, zero, lastFits, allFit⟩ := announced
  have within := midway_room midway room
  cases todo with
  | nil =>
      simp only [encoded, List.flatMap_nil, List.nil_append] at stream
      have whole : response.body = decoded done := by
        simp [Response.body, midway.content, Content.body]
      have parsed := httpChunkParse_line last
      rw [zero] at parsed
      refine size_found phase lastFits stream ?_
      unfold Client.gotSize
      rw [parsed]
      refine ⟨congrArg Int.ofNat midway.status, ?_, ?_⟩
      · rw [whole, ← midway.buf]
        exact midway.count
      · rw [whole]
        exact midway.buf
  | cons chunk todo =>
      simp only [encoded, List.flatMap_cons, Chunk.bytes, List.append_assoc] at stream
      simp only [decoded, List.flatMap_cons, List.length_append] at within
      have some_ := List.length_pos_iff.mpr chunk.nonempty
      have parsed := httpChunkParse_line chunk.line
      have size : saturate chunk.line.size = chunk.data.length := by
        rw [← chunk.sized]
        unfold saturate
        omega
      rw [size] at parsed
      have all : session.client.recvLen recved chunk.data.length = chunk.data.length := by
        have len := midway.len
        unfold Client.recvLen sizeAdd
        rw [if_neg (by omega)]
      refine size_found phase (allFit chunk (by simp)) stream ?_
      unfold Client.gotSize
      rw [parsed]
      simp only [all]
      rw [if_neg (by omega)]
      exact ⟨done, chunk, todo, last, more,
        ⟨midway.content, midway.status, midway.len, midway.buf, midway.count⟩, rfl, rfl, rfl⟩

include room fits in
theorem finds_data {recved chunkLen recvLen : Nat}
    (phase : session.client.phase = .chunkData recved chunkLen recvLen) :
    Finds (Awaits response capacity) session := by
  simp only [Awaits, phase] at awaits
  obtain ⟨done, chunk, todo, last, more, midway, rfl, rfl, stream⟩ := awaits
  have within := midway_room midway room
  simp only [decoded, List.flatMap_cons, List.length_append] at within
  have some_ := List.length_pos_iff.mpr chunk.nonempty
  have sum : sizeAdd recved chunk.data.length = recved + chunk.data.length := by
    unfold sizeAdd
    omega
  have takes : session.client.received chunk.data =
      some (session.client.gotData recved chunk.data.length chunk.data.length chunk.data) := by
    simp [Client.received, phase]
  refine fill_found (by simp [Client.request, phase]) some_ stream rfl takes ?_
  unfold Client.gotData
  dsimp only
  rw [if_neg (by omega), sum]
  refine ⟨done ++ [chunk], todo, last, more, ⟨?_, midway.status, midway.len, ?_, ?_⟩, rfl⟩
  · rw [List.append_assoc]
    exact midway.content
  · rw [decoded_snoc, ← midway.buf]
  · rw [List.length_append, ← midway.count]

omit room fits in
theorem finds_end {recved : Nat} (phase : session.client.phase = .chunkEnd recved) :
    Finds (Awaits response capacity) session := by
  simp only [Awaits, phase] at awaits
  obtain ⟨done, todo, last, more, midway, stream⟩ := awaits
  have asked : session.client.request = some (2, none) := by simp [Client.request, phase]
  have takes : session.client.received crlf = some (session.client.gotEnd recved crlf) := by
    simp [Client.received, phase]
  refine fill_found asked (by decide) stream rfl takes ?_
  unfold Client.gotEnd
  rw [if_neg (by simp)]
  exact ⟨done, todo, last, more,
    ⟨midway.content, midway.status, midway.len, midway.buf, midway.count⟩, rfl⟩

theorem finds_body {bodyLen : Nat} (phase : session.client.phase = .body bodyLen) :
    Finds (Awaits response capacity) session := by
  simp only [Awaits, phase] at awaits
  obtain ⟨body, more, content, rfl, len, some_, status, stream⟩ := awaits
  have takes : session.client.received body =
      some (session.client.gotBody body.length body) := by
    simp [Client.received, phase]
  refine fill_found (by simp [Client.request, phase, len]) (List.length_pos_iff.mpr some_) stream
    rfl takes ?_
  unfold Client.gotBody
  dsimp only
  rw [if_neg (by omega)]
  have whole : response.body = body := by simp [Response.body, content, Content.body]
  refine ⟨congrArg Int.ofNat status, ?_, ?_⟩
  · rw [whole]
    exact len
  · rw [whole]
    rfl

include room positive fits in
theorem awaits_finds (open_ : session.client.phase ≠ .ended) : Finds (Awaits response capacity) session := by
  cases phase : session.client.phase with
  | head => exact finds_head awaits room positive fits phase
  | chunkSize recved => exact finds_size awaits room fits phase
  | chunkData recved chunkLen recvLen => exact finds_data awaits room fits phase
  | chunkEnd recved => exact finds_end awaits phase
  | body bodyLen => exact finds_body awaits phase
  | ended => exact absurd phase open_
  | resolving | connecting | sendingHead | sendingBody =>
      simp only [Awaits, phase] at awaits

omit room positive fits in
theorem awaits_narrow (narrow : response.content.Narrow) {size : Nat}
    (asked : session.client.request = some (size, none)) : size < 2 ^ 32 := by
  unfold Awaits at awaits
  dsimp only at awaits
  unfold Client.request at asked
  split at asked
  · cases asked
  · cases asked
  · rename_i recved chunkLen recvLen phase
    cases asked
    simp only [phase] at awaits
    obtain ⟨done, chunk, todo, last, more, midway, -, rfl, -⟩ := awaits
    rw [midway.content] at narrow
    exact narrow chunk (by simp)
  · cases asked
    decide
  · rename_i bodyLen phase
    cases asked
    simp only [phase] at awaits
    obtain ⟨body, more, content, -, len, -⟩ := awaits
    rw [content] at narrow
    rw [len]
    exact narrow
  · cases asked

end Receiving

theorem awaits_pursued {response : Response} {capacity : Nat}
    (room : response.body.length ≤ capacity) (positive : 0 < capacity) (fits : capacity < 2 ^ 64)
    (narrow : response.content.Narrow) : Pursued (Awaits response capacity) where
  finds _ awaits open_ := awaits_finds awaits room positive fits open_
  narrow _ awaits _ asked := awaits_narrow awaits narrow asked

/-- A state in which the caller has the response, or the client can go on: control returns to
it or to the event loop, or the next byte of the response is read. -/
structure Proceeds (response : Response) (transfer : Transfer) : Prop where
  ended : transfer.client.phase = .ended → Obtained response transfer.client
  running : transfer.running = true → (HttpTransfer.step transfer .go).isSome
  standing : transfer.running = false → transfer.connection.standing = true →
    (HttpTransfer.step transfer .back).isSome
  waiting : transfer.running = false → transfer.connection.standing = false →
    transfer.client.phase ≠ .ended →
    ∃ byte, transfer.connection.received ++ [byte] <+: response.bytes ∧
      (HttpTransfer.step transfer (.read [byte])).isSome

/-- Every response without a body or chunk of 2^32 bytes is received however it is split into
reads. The client never stops before it has the status code, the length and the body, and it
gets there within three steps for a byte. -/
theorem response_received (response : Response) (posting : Bool) (capacity : UInt64)
    (positive : 0 < capacity.toNat) (room : response.body.length ≤ capacity.toNat)
    (narrow : response.content.Narrow) (more : List Byte) (labels : List HttpTransfer.Label)
    (last : Transfer)
    (run : replay HttpTransfer.step (start posting capacity.toNat) labels = some last)
    (read : last.connection.received <+: response.bytes ++ more) :
    Proceeds response last ∧
      labels.countP active ≤ 3 * last.connection.received.length + 1 := by
  have fits : capacity.toNat < 2 ^ 64 := capacity.toNat_lt
  have pursued := awaits_pursued room positive fits narrow
  have first : Holds (Awaits response capacity.toNat) response.bytes
      (start posting capacity.toNat) :=
    holds_start posting capacity.toNat fun more => ⟨rfl, rfl, more, List.append_assoc ..⟩
  have holding := replay_always (Holds (Awaits response capacity.toNat) response.bytes)
    (fun _ label _ holding taken => holds_step pursued holding label taken) first run
  have onward := goesOn pursued holding read
  refine ⟨⟨?_, onward.running, onward.standing, onward.waiting⟩, run_length holding.serving run⟩
  intro phase
  have awaits := holding.good more read
  have own : (view (response.bytes ++ more) last).client.phase = .ended := phase
  simp only [Awaits, own] at awaits
  exact awaits

def twoLines : Response where
  head := ⟨200, text "OK", [(.transferEncoding, text "chunked")]⟩
  lines := text "HTTP/1.1 200 OK\r\nTransfer-Encoding: chunked\r\n\r\n"
  content := .chunked
    [⟨⟨text "a", text ";x", by decide, by decide +kernel, Or.inr rfl, TextLines.clean_of_absent (by decide)⟩,
      text "0123456789", by decide, by decide⟩]
    ⟨text "0", [], by decide, by decide +kernel, Or.inl rfl, trivial⟩
  accepted := by decide +kernel
  fits := by decide
  announced := ⟨rfl, by decide, by decide, by decide⟩

/-- The reads end inside the CRLFs, and the last one begins inside the chunk. -/
def twoLinesRead : List HttpTransfer.Label :=
  [.go, .read (text "HTTP/1.1 200 OK\r\nTransfer-Encoding: chunked\r\n\r"),
    .read (text "\na;x\r"), .go, .back, .read (text "\n01"), .go, .back,
    .read (text "23456789"), .go, .back, .read (text "\r"), .read (text "\n"), .go, .back,
    .read (text "0\r\n"), .back]

theorem response_received_split : ∃ last,
    replay HttpTransfer.step (start false 16) twoLinesRead = some last ∧
      last.client.phase = .ended ∧ Obtained twoLines last.client := by
  have running : (replay HttpTransfer.step (start false 16) twoLinesRead).isSome := by
    decide +kernel
  have whole : ((replay HttpTransfer.step (start false 16) twoLinesRead).get
      running).connection.received = twoLines.bytes := by decide +kernel +revert
  have phase : ((replay HttpTransfer.step (start false 16) twoLinesRead).get
      running).client.phase = .ended := by decide +kernel +revert
  refine ⟨_, (Option.some_get running).symm, phase, ?_⟩
  refine (response_received twoLines false 16 (by decide) (by decide) ?_ [] twoLinesRead _
    (Option.some_get running).symm ?_).1.ended phase
  · intro chunk member
    simp only [List.mem_singleton] at member
    rw [member]
    decide
  · simp [whole]

section Wide

def wideHead : List Byte := text "HTTP/1.1 200 OK\r\nContent-Length: 4294967296\r\n\r\n"

def wide (body : List Byte) (length : body.length = 4294967296) : Response where
  head := ⟨200, text "OK", [(.contentLength, text "4294967296")]⟩
  lines := wideHead
  content := .sized body
  accepted := by decide +kernel
  fits := by decide
  announced := ⟨rfl, text "4294967296", rfl, by rw [length]; decide⟩

/-- The request for the body waits, and its window is empty: what libuv finds there is the end of
the stream. -/
def stuck : Transfer where
  client :=
    { phase := .body 4294967296, posting := false, len := 4294967296, statusCode := 200 }
  connection :=
    { receiving := .recvTill
      size1 := 1024
      allocated := true
      queue := [⟨1, 4294967296, none, [], 4294967296, 4294967296⟩]
      asyncCancel := true
      received := wideHead
      completed := [⟨0, 4096, some [13, 10, 13, 10], wideHead, 4096, 47⟩]
      issued := [⟨0, 4096, some [13, 10, 13, 10], [], 4096, 4096⟩,
        ⟨1, 4294967296, none, [], 4294967296, 4294967296⟩] }
  running := false

theorem stuck_read (chunk : List Byte) : HttpTransfer.step stuck (.read chunk) = none := by
  simp [HttpTransfer.step, stuck, RecvTill.step, Connected.tcpAllocCb1, uvBufLen]

theorem stuck_run :
    replay HttpTransfer.step (start false 4294967296) [.go, .read wideHead, .go, .back] =
      some stuck := by
  decide +kernel

end Wide

/-- No byte of a body of 2^32 bytes is read. -/
theorem response_stuck : ¬∀ (response : Response) (posting : Bool) (capacity : UInt64),
    0 < capacity.toNat → response.body.length ≤ capacity.toNat →
    ∀ (more : List Byte) (labels : List HttpTransfer.Label) (last : Transfer),
      replay HttpTransfer.step (start posting capacity.toNat) labels = some last →
      last.connection.received <+: response.bytes ++ more →
      Proceeds response last ∧
        labels.countP active ≤ 3 * last.connection.received.length + 1 := by
  intro every
  let body : List Byte := List.replicate 4294967296 0
  have length : body.length = 4294967296 := List.length_replicate
  have read : stuck.connection.received <+: (wide body length).bytes ++ [] :=
    ⟨body, by rw [List.append_nil]; rfl⟩
  have proceeds := (every (wide body length) false 4294967296 (by decide) (Nat.le_of_eq length) []
    [.go, .read wideHead, .go, .back] stuck stuck_run read).1
  obtain ⟨byte, -, accepted⟩ := proceeds.waiting rfl rfl (by decide)
  rw [stuck_read] at accepted
  cases accepted

end Cocoflow.HttpDelivery
