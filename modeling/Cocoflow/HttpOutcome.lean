import Mathlib.Data.List.Basic
import Cocoflow.LabelledRuns
import Cocoflow.TcpConnection
import Cocoflow.FirstMatch
import Cocoflow.OneShotReceive
import Cocoflow.TextLines
import Cocoflow.HttpResponse
import Cocoflow.HttpHead
import Cocoflow.HttpClient
import Cocoflow.HttpChunkBounds
import Cocoflow.HttpBody

/-!
What a caller of `http::get` or `http::post` finds in `ret`, `len` and `buf`, at every exit
and after a cancellation. The exits agree as long as the client reads the sizes that the peer
announces: a `recv_till` that is full counts as a size line even without its CRLF, and sizes
near the largest `size_t` wrap or are cut.
-/

namespace Cocoflow.HttpOutcome

open LabelledRuns TcpConnection FirstMatch OneShotReceive HttpResponse HttpHead HttpClient
  HttpChunkBounds HttpBody

/-- What the caller finds at the end. -/
structure Consistent (capacity : Nat) (stream : List Byte) (client : Client) : Prop where
  tooLong : client.ret = errResponseBodyTooLong → client.len = capacity ∧
    client.buf.length = capacity ∧
      ∃ rest head, Opens stream rest head ∧ StartsWith head rest client.buf
  failed : client.ret < 0 → client.ret ≠ errResponseBodyTooLong → client.len = 0
  status : 0 ≤ client.ret → (capacity = 0 ∧ client.len = 0) ∨
    (client.len ≤ capacity ∧ client.buf.length = client.len ∧
      ∃ rest head, Opens stream rest head ∧ client.ret = head.statusCode ∧
        Carries head rest client.buf)

def arrivingLength (session : Session) : Option Nat :=
  (arriving session).bind fun bytes =>
    match httpRspParse Client.needs bytes with
    | some (.ok head) => (head.headerFields.value .contentLength).map decimal
    | _ => none

def arrivingSize (session : Session) : Option (List Byte × Nat) :=
  (arriving session).bind fun bytes =>
    match httpChunkParse bytes with
    | .ok chunkLen => some (bytes, chunkLen)
    | .error _ => none

/-- The sizes in what arrives are read as they are: a size line ends with its CRLF, the sum of
the sizes does not wrap, and no size is cut to the length of the buffer. -/
def ReadsSizes (session : Session) : Label → Prop
  | .received =>
      match session.client.phase with
      | .head => ∀ length ∈ arrivingLength session,
          length < 2 ^ 64 ∨ session.client.len < 2 ^ 64 - 1
      | .chunkSize recved => ∀ line ∈ arrivingSize session,
          firstEnd crlf line.1 = some line.1.length ∧ recved + line.2 < 2 ^ 64 ∧
            (announcedSize line.1 < 2 ^ 64 ∨ session.client.len < 2 ^ 64 - 1)
      | _ => True
  | _ => True

instance (session : Session) : (label : Label) → Decidable (ReadsSizes session label)
  | .received =>
      match h : session.client.phase with
      | .head => decidable_of_iff (∀ length ∈ arrivingLength session,
          length < 2 ^ 64 ∨ session.client.len < 2 ^ 64 - 1) (by simp [ReadsSizes, h])
      | .chunkSize recved => decidable_of_iff (∀ line ∈ arrivingSize session,
          firstEnd crlf line.1 = some line.1.length ∧ recved + line.2 < 2 ^ 64 ∧
            (announcedSize line.1 < 2 ^ 64 ∨ session.client.len < 2 ^ 64 - 1))
          (by simp [ReadsSizes, h])
      | .resolving | .connecting | .sendingHead | .sendingBody | .chunkData _ _ _ | .chunkEnd _
      | .body _ | .ended => isTrue (by simp [ReadsSizes, h])
  | .resolved _ _ | .connected _ | .sent _ | .failed | .cancel => isTrue trivial

structure Chunking (capacity : Nat) (stream part : List Byte) (client : Client)
    (chunks : List Chunk) : Prop where
  opens : ∃ head, Opens stream (encoded chunks ++ part) head ∧
    (head.headerFields.value .transferEncoding).isSome ∧ client.statusCode = head.statusCode
  len : client.len = capacity
  ret : client.ret = unfinished

/-- What the client has read of the stream when it waits. -/
def Reading (capacity : Nat) (stream : List Byte) (session : Session) : Prop :=
  let client := session.client
  match client.phase with
  | .resolving | .connecting | .sendingHead | .sendingBody | .head =>
      client.len = capacity ∧ session.stream = stream ∧ client.buf = [] ∧
        client.ret = unfinished
  | .chunkSize recved => ∃ chunks, Chunking capacity stream session.stream client chunks ∧
      client.buf = decoded chunks ∧ recved = client.buf.length ∧ recved ≤ capacity
  | .chunkData recved chunkLen recvLen => ∃ (chunks : List Chunk) (line : SizeLine),
      Chunking capacity stream (line.bytes ++ session.stream) client chunks ∧
      client.buf = decoded chunks ∧ recved = client.buf.length ∧
      recved + recvLen ≤ capacity ∧ recvLen ≤ line.size ∧ line.size ≠ 0 ∧
      (recvLen < chunkLen → recved + recvLen = capacity) ∧
      (¬recvLen < chunkLen → recvLen = line.size)
  | .chunkEnd recved => ∃ (chunks : List Chunk) (line : SizeLine) (data : List Byte),
      Chunking capacity stream (line.bytes ++ (data ++ session.stream)) client chunks ∧
      data.length = line.size ∧ data ≠ [] ∧ client.buf = decoded chunks ++ data ∧
      recved = client.buf.length ∧ recved ≤ capacity
  | .body bodyLen => ∃ head value, Opens stream session.stream head ∧
      (head.headerFields.value .transferEncoding).isSome = false ∧
      head.headerFields.value .contentLength = some value ∧
      client.statusCode = head.statusCode ∧ client.ret = unfinished ∧
      client.len ≤ capacity ∧ client.len ≤ decimal value ∧
      (client.len < bodyLen → client.len = capacity) ∧
      (¬client.len < bodyLen → client.len = decimal value)
  | .ended => Consistent capacity stream client

variable {capacity : Nat} {stream : List Byte} {client next : Client} {session after : Session}

theorem consistent_failed (negative : client.ret < 0)
    (other : client.ret ≠ errResponseBodyTooLong) (len : client.len = 0) :
    Consistent capacity stream client where
  tooLong same := absurd same other
  failed _ _ := len
  status positive := absurd negative (Int.not_lt.mpr positive)

theorem consistent_fail {ret : Int} {errmsg : String} (negative : ret < 0)
    (other : ret ≠ errResponseBodyTooLong) :
    Consistent capacity stream (client.fail ret errmsg) :=
  consistent_failed negative other rfl

theorem consistent_finish (len : client.len ≤ capacity) (whole : client.buf.length = client.len)
    {rest : List Byte} {head : Head} (opens : Opens stream rest head)
    (status : client.statusCode = head.statusCode) (carries : Carries head rest client.buf) :
    Consistent capacity stream client.finish where
  tooLong same := by
    have impossible : (client.statusCode : Int) = -9 := same
    omega
  failed negative := by
    have impossible : (client.statusCode : Int) < 0 := negative
    omega
  status _ := by
    refine Or.inr ⟨len, whole, rest, head, opens, ?_, carries⟩
    rw [← status]
    rfl

theorem consistent_tooLong (len : client.len = capacity) (full : client.buf.length = capacity)
    {rest : List Byte} {head : Head} (opens : Opens stream rest head)
    (starts : StartsWith head rest client.buf) :
    Consistent capacity stream client.tooLong where
  tooLong _ := ⟨len, full, rest, head, opens, starts⟩
  failed _ other := absurd rfl other
  status positive := by
    have impossible : (0 : Int) ≤ -9 := positive
    omega

theorem arriving_split {bytes : List Byte} (arrives : arriving session = some bytes) :
    session.stream = bytes ++ session.stream.drop bytes.length := by
  obtain ⟨⟨size, pattern⟩, -, shot⟩ := Option.bind_eq_some_iff.mp arrives
  dsimp only at shot
  split at shot
  · cases shot
  · have start := oneShot_length shot
    conv_lhs => rw [← List.take_append_drop bytes.length session.stream, ← start]

theorem arriving_fill {bytes : List Byte} {size : Nat}
    (request : session.client.request = some (size, none))
    (arrives : arriving session = some bytes) : bytes.length = size := by
  simp only [arriving, request, Option.bind_some] at arrives
  split at arrives
  · cases arrives
  · unfold oneShot at arrives
    simp only [Option.bind_none] at arrives
    split at arrives
    · rename_i enough
      rw [← Option.some.inj arrives, List.length_take_of_le enough]
    · cases arrives

section Received

variable {bytes : List Byte} (reading : Reading capacity stream session)
  (fits : capacity < 2 ^ 64) (arrives : arriving session = some bytes)
include reading fits arrives

theorem reading_head (phase : session.client.phase = .head)
    (sizes : ReadsSizes session .received)
    (taken : session.client.gotHead bytes = some next) :
    Reading capacity stream { client := next, stream := session.stream.drop bytes.length } := by
  simp only [Reading, phase] at reading
  obtain ⟨len, whole, empty, ret⟩ := reading
  have split := arriving_split arrives
  rw [whole] at split
  simp only [ReadsSizes, phase] at sizes
  unfold Client.gotHead at taken
  split at taken
  · cases taken
  · cases taken
    exact consistent_fail (by decide) (by decide)
  · rename_i head accepted
    cases taken
    have opens : Opens stream (session.stream.drop bytes.length) head :=
      ⟨bytes, accepted, by rw [whole]; exact split⟩
    unfold Client.parsed
    dsimp only
    split
    · rename_i ignored
      refine ⟨?_, ?_, fun _ => Or.inl ⟨by rw [← len]; exact ignored, ignored⟩⟩
      · intro same
        have impossible : (head.statusCode : Int) = -9 := same
        omega
      · intro negative
        have impossible : (head.statusCode : Int) < 0 := negative
        omega
    · split
      · rename_i chunked
        exact ⟨[], ⟨⟨head, opens, chunked, rfl⟩, len, ret⟩, empty, by simp [empty],
          Nat.zero_le _⟩
      · rename_i whole_
        rw [Bool.not_eq_true] at whole_
        split
        · exact consistent_fail (by decide) (by decide)
        · rename_i value held
          have size := sizes (decimal value) (by simp [arrivingLength, arrives, accepted, held])
          rw [len] at size
          split
          · refine ⟨head, value, opens, whole_, held, rfl, ret, ?_, ?_, ?_, ?_⟩
            · simp only [len]
              split <;> omega
            · simp only [len, saturate]
              split <;> omega
            · simp only [len, saturate]
              split <;> omega
            · simp only [len, saturate]
              split <;> omega
          · rename_i none_
            refine consistent_finish (Nat.zero_le _) (by simp [empty]) opens rfl ?_
            unfold Carries
            rw [if_neg (by simp [whole_])]
            refine ⟨value, session.stream.drop bytes.length, held, by simp [empty], ?_⟩
            simp only [saturate] at none_
            simp only [empty, List.length_nil]
            omega

theorem reading_size {recved : Nat} (phase : session.client.phase = .chunkSize recved)
    (sizes : ReadsSizes session .received) :
    Reading capacity stream {
      client := session.client.gotSize recved bytes
      stream := session.stream.drop bytes.length } := by
  simp only [Reading, phase] at reading
  obtain ⟨chunks, chunking, buf, count, within⟩ := reading
  have split := arriving_split arrives
  simp only [ReadsSizes, phase] at sizes
  unfold Client.gotSize
  split
  · exact consistent_fail (by decide) (by decide)
  · rename_i chunkLen parsed
    obtain ⟨found, unwrapped, exact_⟩ := sizes (bytes, chunkLen)
      (by simp [arrivingSize, arrives, parsed])
    dsimp only at found unwrapped exact_
    obtain ⟨line, same, size, cut⟩ := sizeLine_of_parse found parsed
    rw [split, ← same] at chunking
    split
    · rename_i last
      obtain ⟨head, opens, chunked, status⟩ := chunking.opens
      refine consistent_finish within (by exact count.symm) opens status ?_
      unfold Carries
      rw [if_pos chunked]
      refine ⟨chunks, line, _, ?_, rfl, buf⟩
      rw [last, saturate] at cut
      omega
    · rename_i more
      have ends : session.client.recvLen recved chunkLen =
          if session.client.len < recved + chunkLen then session.client.len - recved
          else chunkLen := by
        have len := chunking.len
        unfold Client.recvLen sizeAdd sizeSub
        rw [Nat.mod_eq_of_lt unwrapped]
        split <;> omega
      rw [← size] at exact_
      have len := chunking.len
      have cut_ := cut
      simp only [saturate] at cut_
      refine ⟨chunks, line, ?_, buf, count, ?_, ?_, ?_, ?_, ?_⟩
      · rw [← same]
        exact ⟨chunking.opens, chunking.len, chunking.ret⟩
      · rw [ends]
        split <;> omega
      · rw [ends]
        split <;> omega
      · omega
      · rw [ends]
        split <;> omega
      · rw [ends]
        split <;> omega

theorem reading_data {recved chunkLen recvLen : Nat}
    (phase : session.client.phase = .chunkData recved chunkLen recvLen) :
    Reading capacity stream {
      client := session.client.gotData recved chunkLen recvLen bytes
      stream := session.stream.drop bytes.length } := by
  simp only [Reading, phase] at reading
  obtain ⟨chunks, line, chunking, buf, count, within, part, some_, short, full⟩ := reading
  have split := arriving_split arrives
  have size : bytes.length = recvLen := arriving_fill (by simp [Client.request, phase]) arrives
  rw [split] at chunking
  have sum : sizeAdd recved recvLen = recved + recvLen := by
    unfold sizeAdd
    omega
  unfold Client.gotData
  dsimp only
  rw [sum]
  split
  · rename_i less
    obtain ⟨head, opens, chunked, -⟩ := chunking.opens
    refine consistent_tooLong (short less) ?_ opens ?_
    · simp only [List.length_append]
      rw [← count, size]
      exact short less
    · unfold StartsWith
      rw [if_pos chunked]
      refine ⟨chunks, line, bytes, _, by omega, rfl, ?_⟩
      simp only [buf]
  · rename_i enough
    have exact_ := full enough
    refine ⟨chunks, line, bytes, ⟨chunking.opens, chunking.len, chunking.ret⟩, by omega, ?_, ?_, ?_,
      within⟩
    · intro empty
      rw [empty] at size
      simp only [List.length_nil] at size
      omega
    · simp only [buf]
    · simp only [List.length_append]
      omega

omit fits in
theorem reading_end {recved : Nat} (phase : session.client.phase = .chunkEnd recved) :
    Reading capacity stream {
      client := session.client.gotEnd recved bytes
      stream := session.stream.drop bytes.length } := by
  simp only [Reading, phase] at reading
  obtain ⟨chunks, line, data, chunking, sized, some_, buf, count, within⟩ := reading
  have split := arriving_split arrives
  unfold Client.gotEnd
  split
  · exact consistent_fail (by decide) (by decide)
  · rename_i ends
    rw [ne_eq, not_not] at ends
    let chunk : Chunk := { line := line, data := data, sized := sized, nonempty := some_ }
    refine ⟨chunks ++ [chunk], ?_, ?_, count, within⟩
    · refine ⟨?_, chunking.len, chunking.ret⟩
      obtain ⟨head, opens, chunked, status⟩ := chunking.opens
      refine ⟨head, ?_, chunked, status⟩
      rw [split, ends] at opens
      rw [encoded_snoc, ends]
      simpa using opens
    · rw [decoded_snoc]
      exact buf

omit fits in
theorem reading_body {bodyLen : Nat} (phase : session.client.phase = .body bodyLen) :
    Reading capacity stream {
      client := session.client.gotBody bodyLen bytes
      stream := session.stream.drop bytes.length } := by
  simp only [Reading, phase] at reading
  obtain ⟨head, value, opens, whole, held, status, -, within, part, short, full⟩ := reading
  have split := arriving_split arrives
  have size : bytes.length = session.client.len :=
    arriving_fill (by simp [Client.request, phase]) arrives
  unfold Client.gotBody
  dsimp only
  split
  · rename_i less
    refine consistent_tooLong (short less) (size.trans (short less)) opens ?_
    unfold StartsWith
    rw [if_neg (by simp [whole])]
    exact ⟨value, _, held, split, size.trans_le part⟩
  · rename_i enough
    refine consistent_finish within size opens status ?_
    unfold Carries
    rw [if_neg (by simp [whole])]
    exact ⟨value, _, held, split, size.trans (full enough)⟩

theorem reading_received (sizes : ReadsSizes session .received)
    (taken : session.client.received bytes = some next) :
    Reading capacity stream { client := next, stream := session.stream.drop bytes.length } := by
  unfold Client.received at taken
  split at taken
  · rename_i phase
    exact reading_head reading fits arrives phase sizes taken
  · rename_i phase
    cases taken
    exact reading_size reading fits arrives phase sizes
  · rename_i phase
    cases taken
    exact reading_data reading fits arrives phase
  · rename_i phase
    cases taken
    exact reading_end reading arrives phase
  · rename_i phase
    cases taken
    exact reading_body reading arrives phase
  · cases taken

end Received

theorem reading_unfinished (reading : Reading capacity stream session)
    (open_ : session.client.phase ≠ .ended) : session.client.ret = unfinished := by
  unfold Reading at reading
  dsimp only at reading
  split at reading
  · exact reading.2.2.2
  · exact reading.2.2.2
  · exact reading.2.2.2
  · exact reading.2.2.2
  · exact reading.2.2.2
  · obtain ⟨chunks, chunking, -⟩ := reading
    exact chunking.ret
  · obtain ⟨chunks, line, chunking, -⟩ := reading
    exact chunking.ret
  · obtain ⟨chunks, line, data, chunking, -⟩ := reading
    exact chunking.ret
  · obtain ⟨head, value, -, -, -, -, ret, -⟩ := reading
    exact ret
  · rename_i phase
    exact absurd phase open_

theorem reading_cancel (reading : Reading capacity stream session)
    (open_ : session.client.phase ≠ .ended) :
    Consistent capacity stream session.client.cancel := by
  have ret : session.client.cancel.ret = unfinished := reading_unfinished reading open_
  exact consistent_failed (by rw [ret]; decide) (by rw [ret]; decide) rfl

theorem reading_step (reading : Reading capacity stream session) (fits : capacity < 2 ^ 64)
    (label : Label) (sizes : ReadsSizes session label)
    (taken : step session label = some after) : Reading capacity stream after := by
  cases label with
  | resolved ret errmsg =>
      simp only [step] at taken
      split at taken
      · rename_i phase
        cases taken
        simp only [Reading, phase] at reading
        unfold Client.resolved
        split
        · exact consistent_fail (by decide) (by decide)
        · exact reading
      · cases taken
  | connected ret =>
      simp only [step] at taken
      split at taken
      · rename_i phase
        cases taken
        simp only [Reading, phase] at reading
        unfold Client.connected
        split
        · exact consistent_fail (by decide) (by decide)
        · exact reading
      · cases taken
  | sent ret =>
      simp only [step] at taken
      split at taken
      · rename_i phase
        cases taken
        simp only [Reading, phase] at reading
        unfold Client.sentHead
        split
        · exact consistent_fail (by decide) (by decide)
        · cases posting : session.client.posting <;> exact reading
      · split at taken
        · rename_i phase
          cases taken
          simp only [Reading, phase] at reading
          unfold Client.sentBody
          split
          · exact consistent_fail (by decide) (by decide)
          · exact reading
        · cases taken
  | received =>
      obtain ⟨bytes, arrives, rest⟩ := Option.bind_eq_some_iff.mp taken
      obtain ⟨client, got, rfl⟩ := Option.map_eq_some_iff.mp rest
      exact reading_received reading fits arrives sizes got
  | failed =>
      simp only [step] at taken
      split at taken
      · obtain ⟨client, got, rfl⟩ := Option.map_eq_some_iff.mp taken
        unfold Client.unreceived at got
        split at got <;> cases got <;> exact consistent_fail (by decide) (by decide)
      · cases taken
  | cancel =>
      simp only [step] at taken
      split at taken
      · cases taken
      · rename_i waits
        rw [not_or] at waits
        cases taken
        exact reading_cancel reading waits.1

theorem reading_start (posting : Bool) (url : Except Int Url) :
    Reading capacity stream { client := Client.start posting capacity url, stream } := by
  unfold Client.start
  dsimp only
  split
  · exact consistent_fail (by decide) (by decide)
  · split
    · exact consistent_fail (by decide) (by decide)
    · split
      · exact consistent_fail (by decide) (by decide)
      · split
        · exact consistent_fail (by decide) (by decide)
        · exact ⟨rfl, rfl, rfl, rfl⟩

/-- In every run that reads the announced sizes as they are, the caller finds `ret`, `len` and
`buf` in agreement with each other and with the peer's response. -/
theorem outcome_consistent (posting : Bool) (url : Except Int Url) (capacity : UInt64)
    (stream : List Byte) (labels : List Label) (last : Session)
    (run : replay step { client := Client.start posting capacity.toNat url, stream } labels =
      some last)
    (sizes : Along step ReadsSizes
      { client := Client.start posting capacity.toNat url, stream } labels)
    (ends : last.client.phase = .ended) : Consistent capacity.toNat stream last.client := by
  have fits : capacity.toNat < 2 ^ 64 := capacity.toNat_lt
  have reading := replay_invariant (Reading capacity.toNat stream)
    (fun _ label _ reading sizes taken => reading_step reading fits label sizes taken)
    (reading_start posting url) sizes run
  simpa [Reading, ends] using reading

def oneChunk : List Byte :=
  text "HTTP/1.1 200 OK\r\nTransfer-Encoding: chunked\r\n\r\n1\r\na\r\n0\r\n\r\n"

def oneChunkReceived : List Label :=
  [.resolved 0 "", .connected 0, .sent 0, .received, .received, .received, .received, .received]

theorem outcome_consistent_chunk : ∃ last,
    replay step { client := Client.start false 8 exampleUrl, stream := oneChunk }
      oneChunkReceived = some last ∧ last.client.ret = 200 ∧
      Consistent 8 oneChunk last.client := by
  have reached : (replay step { client := Client.start false 8 exampleUrl, stream := oneChunk }
      oneChunkReceived).isSome := by decide +kernel
  have ends : ((replay step { client := Client.start false 8 exampleUrl, stream := oneChunk }
      oneChunkReceived).get reached).client.phase = .ended := by decide +kernel +revert
  have ret : ((replay step { client := Client.start false 8 exampleUrl, stream := oneChunk }
      oneChunkReceived).get reached).client.ret = 200 := by decide +kernel +revert
  exact ⟨_, (Option.some_get reached).symm, ret,
    outcome_consistent false exampleUrl 8 oneChunk oneChunkReceived _
      (Option.some_get reached).symm (by decide +kernel) ends⟩

section Overlong

/-- A size line up to the end of the client's buffer, when its extension is longer. -/
def overlong (filler : List Byte) : List Byte := 53 :: 59 :: filler

/-- The rest of the line, a chunk that looks like the end of the body, and its real end. -/
def behindOverlong : List Byte := text "yyyyy\r\n0\r\nAB\r\n0\r\n\r\n"

def chunkedHead : List Byte := text "HTTP/1.1 200 OK\r\nTransfer-Encoding: chunked\r\n\r\n"

def chunkedClient (phase : Phase) (buf : List Byte) : Client :=
  { phase := phase, posting := false, len := 8, buf := buf, statusCode := 200 }

variable {filler : List Byte} (length : filler.length = 4094) (plain : (13 : Byte) ∉ filler)

include plain in
theorem overlong_absent : (13 : Byte) ∉ overlong filler := by
  simp only [overlong, List.mem_cons, not_or]
  exact ⟨by decide, by decide, plain⟩

include length in
theorem overlong_parse : httpChunkParse (overlong filler) = .ok 5 := by
  cases filler with
  | nil => cases length
  | cons byte rest =>
      have scanned : scanSize ([53] ++ 59 :: byte :: rest) = some ([53], 59 :: byte :: rest) :=
        scanSize_digits (by decide +kernel) ⟨byte, rest, Or.inr rfl⟩
      have long : (59 :: byte :: rest : List Byte).length ≠ 1 := by
        simp only [List.length_cons]
        omega
      have shape : overlong (byte :: rest) = [53] ++ 59 :: byte :: rest := rfl
      unfold httpChunkParse
      rw [shape, scanned]
      simp only [long, or_false, List.cons_ne_nil, if_false]
      decide

include length plain in
theorem overlong_arrives :
    oneShot Client.tmpSize (some crlf) (overlong filler ++ behindOverlong) =
      some (overlong filler) := by
  have size : (overlong filler).length = Client.tmpSize := by
    simp only [overlong, List.length_cons, length, Client.tmpSize]
  have enough : Client.tmpSize ≤ (overlong filler ++ behindOverlong).length := by
    rw [List.length_append, size]
    exact Nat.le_add_right _ _
  rw [crlf, oneShot_full enough]
  · rw [← size, List.take_left]
  · intro start inside occurs
    have bound : start + 2 ≤ (overlong filler).length := by
      rw [size]
      exact Nat.le_of_lt inside
    have here := (occurs_append behindOverlong bound).mp occurs
    obtain ⟨more, split⟩ := TextLines.occurs_two.mp here
    have symbol : (13 : Byte) ∈ (overlong filler).drop start := by
      rw [split]
      simp
    exact overlong_absent plain (List.mem_of_mem_drop symbol)

def askingClient : Client := { phase := .head, posting := false, len := 8 }

theorem overlong_head (more : List Byte) :
    step { client := askingClient, stream := chunkedHead ++ more } .received =
      some { client := chunkedClient (.chunkSize 0) [], stream := more } := by
  obtain ⟨head, accepted, parsed⟩ : ∃ head,
      httpRspParse Client.needs chunkedHead = some (.ok head) ∧
        askingClient.parsed head = chunkedClient (.chunkSize 0) [] :=
    ⟨⟨200, text "OK", [(.transferEncoding, text "chunked")]⟩, by decide +kernel, by decide +kernel⟩
  have found := oneShot_found (head_end more accepted)
    (show chunkedHead.length ≤ Client.tmpSize by decide)
  rw [List.take_left] at found
  have arrives : arriving { client := askingClient, stream := chunkedHead ++ more } =
      some chunkedHead := found
  have got : askingClient.received chunkedHead = some (chunkedClient (.chunkSize 0) []) := by
    rw [← parsed]
    simp only [Client.received, askingClient, Client.gotHead, accepted]
  simp only [step, arrives, got, Option.bind_some, Option.map_some, List.drop_left]

include length plain in
theorem overlong_size :
    step ⟨chunkedClient (.chunkSize 0) [], overlong filler ++ behindOverlong⟩ .received =
      some { client := chunkedClient (.chunkData 0 5 5) [], stream := behindOverlong } := by
  have arrives : arriving ⟨chunkedClient (.chunkSize 0) [], overlong filler ++ behindOverlong⟩ =
      some (overlong filler) :=
    overlong_arrives length plain
  have got : (chunkedClient (.chunkSize 0) []).received (overlong filler) =
      some (chunkedClient (.chunkData 0 5 5) []) := by
    simp only [Client.received, chunkedClient, Client.gotSize, overlong_parse length]
    decide
  simp only [step, arrives, got, Option.bind_some, Option.map_some, List.drop_left]

/-- What the client makes of the response: the chunk is the rest of the size line. -/
def misled : Client :=
  { phase := .ended, posting := false, ret := 200, len := 5, errmsg := some "OK",
    buf := text "yyyyy", statusCode := 200 }

def overlongStream (filler : List Byte) : List Byte :=
  chunkedHead ++ (overlong filler ++ behindOverlong)

include length plain in
theorem overlong_run :
    replay step { client := Client.start false 8 exampleUrl, stream := overlongStream filler }
        oneChunkReceived =
      some { client := misled, stream := text "AB\r\n0\r\n\r\n" } := by
  have asked : replay step
      { client := Client.start false 8 exampleUrl, stream := overlongStream filler }
      [.resolved 0 "", .connected 0, .sent 0] =
        some { client := askingClient, stream := overlongStream filler } := rfl
  have read : replay step ⟨chunkedClient (.chunkData 0 5 5) [], behindOverlong⟩
      [.received, .received, .received] =
        some { client := misled, stream := text "AB\r\n0\r\n\r\n" } := by decide +kernel
  have taken := overlong_size length plain
  have opened := overlong_head (overlong filler ++ behindOverlong)
  have late : replay step { client := askingClient, stream := overlongStream filler }
      [.received, .received, .received, .received, .received] =
        some { client := misled, stream := text "AB\r\n0\r\n\r\n" } := by
    simp only [replay, overlongStream, opened, taken, Option.bind_some]
    exact read
  refine (replay_append _ [Label.resolved 0 "", .connected 0, .sent 0] _).trans ?_
  rw [asked]
  exact late

def overlongLine (filler : List Byte) (plain : (13 : Byte) ∉ filler) : SizeLine where
  digits := [53]
  extension := 59 :: filler ++ text "yyyyy"
  nonempty := by simp
  hex := by decide +kernel
  started := Or.inr rfl
  clean := by
    refine TextLines.clean_append ?_ (TextLines.clean_of_absent (by decide))
    exact fun member => overlong_absent plain (List.mem_cons_of_mem 53 member)

include plain in
theorem overlong_carries {head : Head}
    (chunked : (head.headerFields.value .transferEncoding).isSome) :
    Carries head (overlong filler ++ behindOverlong) (text "0\r\nAB") := by
  unfold Carries
  rw [if_pos chunked]
  refine ⟨[⟨overlongLine filler plain, text "0\r\nAB", rfl, by decide⟩],
    ⟨[48], [], by simp, by decide +kernel, Or.inl rfl, trivial⟩, text "\r\n", rfl, ?_, rfl⟩
  have behind : behindOverlong = text "yyyyy" ++
      (crlf ++ (text "0\r\nAB" ++ (crlf ++ (48 :: (crlf ++ text "\r\n"))))) := by decide
  rw [behind]
  simp [encoded, Chunk.bytes, overlongLine, SizeLine.bytes, overlong]

end Overlong

/-- An extension that is longer than the client's buffer is read as data, with a status code. -/
theorem outcome_inconsistent_overlong :
    ¬∀ (posting : Bool) (url : Except Int Url) (capacity : UInt64) (stream : List Byte)
      (labels : List Label) (last : Session),
      replay step { client := Client.start posting capacity.toNat url, stream } labels =
        some last → last.client.phase = .ended →
          Consistent capacity.toNat stream last.client := by
  intro every
  let filler : List Byte := List.replicate 4094 120
  have length : filler.length = 4094 := List.length_replicate
  have plain : (13 : Byte) ∉ filler := by
    intro member
    exact absurd (List.eq_of_mem_replicate member) (by decide)
  have consistent := every false exampleUrl 8 (overlongStream filler) oneChunkReceived _
    (overlong_run length plain) rfl
  obtain ⟨none_, -⟩ | ⟨-, -, rest, head, opens, -, carries⟩ := consistent.status (by decide)
  · exact absurd none_ (by decide)
  · let chunked : Head := ⟨200, text "OK", [(.transferEncoding, text "chunked")]⟩
    have own : Opens (overlongStream filler) (overlong filler ++ behindOverlong) chunked :=
      ⟨chunkedHead, by decide +kernel, rfl⟩
    obtain ⟨rfl, rfl⟩ := opens_unique opens own
    have body := carries_unique carries (overlong_carries plain (by decide))
    exact absurd body (by decide)

end Cocoflow.HttpOutcome
