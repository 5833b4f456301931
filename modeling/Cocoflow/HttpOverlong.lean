import Mathlib.Data.List.Basic
import Mathlib.Data.List.Infix
import Cocoflow.LabelledRuns
import Cocoflow.TcpConnection
import Cocoflow.FirstMatch
import Cocoflow.RecvTill
import Cocoflow.OneShotReceive
import Cocoflow.SoleReceiver
import Cocoflow.HttpResponse
import Cocoflow.HttpHead
import Cocoflow.HttpClient
import Cocoflow.HttpBody
import Cocoflow.HttpTransfer
import Cocoflow.HttpPursuit
import Cocoflow.HttpDelivery

/-!
A response with a body that is longer than the caller's buffer. The client fills the buffer
and ends with its own code, unless a chunk ends exactly where the buffer does: for the next
chunk it issues a `recv_till` of length 0, which does not pass its `CHECK`.
-/

namespace Cocoflow.HttpOverlong

open LabelledRuns TcpConnection FirstMatch RecvTill OneShotReceive SoleReceiver HttpResponse
  HttpHead HttpClient HttpBody HttpTransfer HttpPursuit HttpDelivery

structure TooLong (response : Response) (capacity : Nat) (client : Client) : Prop where
  ret : client.ret = errResponseBodyTooLong
  len : client.len = capacity
  buf : client.buf = response.body.take capacity

/-- No chunk ends where the buffer ends. -/
def Apart (capacity : Nat) : Content → Prop
  | .sized _ => True
  | .chunked chunks _ => ∀ done, done <+: chunks → (decoded done).length ≠ capacity

/-- What is read in one piece has less than 2^32 bytes, and the length of a chunk that is
reached does not wrap when it is added to what is there. -/
def Manageable (capacity : Nat) : Content → Prop
  | .sized _ => capacity < 2 ^ 32
  | .chunked chunks _ => ∀ done chunk todo, chunks = done ++ chunk :: todo →
      (decoded done).length < capacity →
        (decoded done).length + chunk.data.length < 2 ^ 64 ∧
          min chunk.data.length (capacity - (decoded done).length) < 2 ^ 32

/-- What stands in front of the client, while the buffer is not full. -/
def Overruns (response : Response) (capacity : Nat) (session : Session) : Prop :=
  let client := session.client
  match client.phase with
  | .head => client.len = capacity ∧ client.buf = [] ∧
      ∃ more, session.stream = response.lines ++ (response.content.bytes ++ more)
  | .chunkSize recved => ∃ done todo last more,
      Midway response capacity client recved done todo last ∧ recved < capacity ∧
        session.stream = encoded todo ++ (last.bytes ++ more)
  | .chunkData recved chunkLen recvLen => ∃ done chunk todo last more,
      Midway response capacity client recved done (chunk :: todo) last ∧ recved < capacity ∧
        chunkLen = chunk.data.length ∧ recvLen = min chunk.data.length (capacity - recved) ∧
        session.stream = chunk.data ++ (crlf ++ (encoded todo ++ (last.bytes ++ more)))
  | .chunkEnd recved => ∃ done todo last more,
      Midway response capacity client recved done todo last ∧ recved < capacity ∧
        session.stream = crlf ++ (encoded todo ++ (last.bytes ++ more))
  | .body bodyLen => ∃ body more, response.content = .sized body ∧ capacity < bodyLen ∧
      client.len = capacity ∧ session.stream = body ++ more
  | .ended => TooLong response capacity client
  | _ => False

section Receiving

variable {response : Response} {capacity : Nat} {session : Session}

theorem overruns_parsed {client : Client} (len : client.len = capacity) (empty : client.buf = [])
    (long : capacity < response.body.length) (positive : 0 < capacity)
    (manageable : Manageable capacity response.content) (more : List Byte) :
    Overruns response capacity {
      client := client.parsed response.head
      stream := response.content.bytes ++ more } := by
  have announced := response.announced
  unfold Client.parsed
  dsimp only
  rw [if_neg (by omega)]
  cases content : response.content with
  | sized body =>
      rw [content] at announced manageable
      obtain ⟨whole, value, held, size⟩ := announced
      have longer : capacity < body.length := by
        simpa [Response.body, content, Content.body] using long
      have narrow : capacity < 2 ^ 32 := manageable
      have more_ : capacity < saturate (decimal value) := by
        rw [size]
        unfold saturate
        omega
      simp only [whole, Option.isSome_none, Bool.false_eq_true, if_false, held]
      rw [if_pos (by omega)]
      refine ⟨body, more, content, more_, ?_, rfl⟩
      dsimp only
      rw [if_neg (by omega)]
      exact len
  | chunked chunks last =>
      rw [content] at announced
      rw [if_pos announced.1]
      refine ⟨[], chunks, last, more, ⟨content, rfl, len, ?_, ?_⟩, positive, ?_⟩
      · simpa [decoded] using empty
      · simp [empty]
      · simp [Content.bytes]

theorem midway_body {client : Client} {recved : Nat} {done todo : List Chunk} {last : SizeLine}
    (midway : Midway response capacity client recved done todo last) :
    response.body = decoded done ++ decoded todo := by
  simp [Response.body, midway.content, Content.body, decoded]

variable (overruns : Overruns response capacity session)
  (long : capacity < response.body.length) (positive : 0 < capacity) (fits : capacity < 2 ^ 64)
  (apart : Apart capacity response.content) (manageable : Manageable capacity response.content)
include overruns

include long positive manageable in
theorem finds_head (phase : session.client.phase = .head) :
    Finds (Overruns response capacity) session := by
  simp only [Overruns, phase] at overruns
  obtain ⟨len, empty, more, stream⟩ := overruns
  exact head_found phase response.accepted response.fits stream
    (overruns_parsed len empty long positive manageable more)

include long fits manageable in
theorem finds_size {recved : Nat} (phase : session.client.phase = .chunkSize recved) :
    Finds (Overruns response capacity) session := by
  simp only [Overruns, phase] at overruns
  obtain ⟨done, todo, last, more, midway, room, stream⟩ := overruns
  have announced := response.announced
  rw [midway.content] at announced
  obtain ⟨-, -, -, allFit⟩ := announced
  have count : recved = (decoded done).length := by rw [midway.count, midway.buf]
  cases todo with
  | nil =>
      -- the buffer is not full, so there is another chunk
      rw [midway_body midway] at long
      simp only [decoded, List.flatMap_nil, List.append_nil] at long count
      omega
  | cons chunk todo =>
      simp only [encoded, List.flatMap_cons, Chunk.bytes, List.append_assoc] at stream
      have bounds := manageable
      rw [midway.content] at bounds
      obtain ⟨sum, -⟩ := bounds done chunk todo rfl (by omega)
      have some_ := List.length_pos_iff.mpr chunk.nonempty
      have parsed := httpChunkParse_line chunk.line
      have size : saturate chunk.line.size = chunk.data.length := by
        rw [← chunk.sized]
        unfold saturate
        omega
      rw [size] at parsed
      have part : session.client.recvLen recved chunk.data.length =
          min chunk.data.length (capacity - recved) := by
        have len := midway.len
        unfold Client.recvLen sizeAdd sizeSub
        split <;> omega
      refine size_found phase (allFit chunk (by simp)) stream ?_
      unfold Client.gotSize
      rw [parsed]
      simp only [part]
      rw [if_neg (by omega)]
      exact ⟨done, chunk, todo, last, more,
        ⟨midway.content, midway.status, midway.len, midway.buf, midway.count⟩, room, rfl, rfl, rfl⟩

include fits apart in
theorem finds_data {recved chunkLen recvLen : Nat}
    (phase : session.client.phase = .chunkData recved chunkLen recvLen) :
    Finds (Overruns response capacity) session := by
  simp only [Overruns, phase] at overruns
  obtain ⟨done, chunk, todo, last, more, midway, room, rfl, rfl, stream⟩ := overruns
  have some_ := List.length_pos_iff.mpr chunk.nonempty
  have count : recved = (decoded done).length := by rw [midway.count, midway.buf]
  have bytes : (chunk.data.take (min chunk.data.length (capacity - recved))).length =
      min chunk.data.length (capacity - recved) := by
    rw [List.length_take]
    omega
  have split : session.stream = chunk.data.take (min chunk.data.length (capacity - recved)) ++
      (chunk.data.drop (min chunk.data.length (capacity - recved)) ++
        (crlf ++ (encoded todo ++ (last.bytes ++ more)))) := by
    rw [stream]
    conv_lhs => rw [← List.take_append_drop (min chunk.data.length (capacity - recved)) chunk.data]
    rw [List.append_assoc]
  have sum : sizeAdd recved (min chunk.data.length (capacity - recved)) =
      recved + min chunk.data.length (capacity - recved) := by
    unfold sizeAdd
    omega
  have takes : session.client.received
      (chunk.data.take (min chunk.data.length (capacity - recved))) =
        some (session.client.gotData recved chunk.data.length
          (min chunk.data.length (capacity - recved))
          (chunk.data.take (min chunk.data.length (capacity - recved)))) := by
    simp [Client.received, phase]
  refine fill_found (by simp [Client.request, phase]) (by omega) split bytes takes ?_
  unfold Client.gotData
  dsimp only
  rw [sum]
  by_cases isOver : capacity - recved < chunk.data.length
  · -- the rest of the buffer is filled
    have cut : min chunk.data.length (capacity - recved) = capacity - recved := by omega
    rw [if_pos (by omega), cut]
    refine ⟨rfl, ?_, ?_⟩
    · change recved + (capacity - recved) = capacity
      omega
    · change session.client.buf ++ chunk.data.take (capacity - recved) = _
      have first : (decoded done).take capacity = decoded done :=
        List.take_of_length_le (by omega)
      have second : (decoded (chunk :: todo)).take (capacity - recved) =
          chunk.data.take (capacity - recved) := by
        rw [decoded, List.flatMap_cons, List.take_append_of_le_length (by omega)]
      rw [midway_body midway, midway.buf, List.take_append, ← count, first, second]
  · -- the chunk fits, and behind it the buffer is still not full
    have whole : min chunk.data.length (capacity - recved) = chunk.data.length := by omega
    rw [if_neg (by omega), whole, List.take_length]
    have onward := apart
    rw [midway.content] at onward
    have full := onward (done ++ [chunk]) ⟨todo, by simp⟩
    rw [decoded_snoc, List.length_append] at full
    refine ⟨done ++ [chunk], todo, last, more, ⟨?_, midway.status, midway.len, ?_, ?_⟩, ?_, ?_⟩
    · rw [List.append_assoc]
      exact midway.content
    · rw [decoded_snoc, ← midway.buf]
    · rw [List.length_append, ← midway.count]
    · omega
    · simp

theorem finds_end {recved : Nat} (phase : session.client.phase = .chunkEnd recved) :
    Finds (Overruns response capacity) session := by
  simp only [Overruns, phase] at overruns
  obtain ⟨done, todo, last, more, midway, room, stream⟩ := overruns
  have asked : session.client.request = some (2, none) := by simp [Client.request, phase]
  have takes : session.client.received crlf = some (session.client.gotEnd recved crlf) := by
    simp [Client.received, phase]
  refine fill_found asked (by decide) stream rfl takes ?_
  unfold Client.gotEnd
  rw [if_neg (by simp)]
  exact ⟨done, todo, last, more,
    ⟨midway.content, midway.status, midway.len, midway.buf, midway.count⟩, room, rfl⟩

include long positive in
theorem finds_body {bodyLen : Nat} (phase : session.client.phase = .body bodyLen) :
    Finds (Overruns response capacity) session := by
  simp only [Overruns, phase] at overruns
  obtain ⟨body, more, content, isOver, len, stream⟩ := overruns
  have whole : response.body = body := by simp [Response.body, content, Content.body]
  rw [whole] at long
  have split : session.stream = body.take capacity ++ (body.drop capacity ++ more) := by
    rw [stream, ← List.append_assoc, List.take_append_drop]
  have bytes : (body.take capacity).length = capacity := by
    rw [List.length_take]
    omega
  have takes : session.client.received (body.take capacity) =
      some (session.client.gotBody bodyLen (body.take capacity)) := by
    simp [Client.received, phase]
  refine fill_found (by simp [Client.request, phase, len]) positive split bytes takes ?_
  unfold Client.gotBody
  dsimp only
  rw [if_pos (by omega)]
  refine ⟨rfl, len, ?_⟩
  rw [whole]
  rfl

include long positive fits apart manageable in
theorem overruns_finds (open_ : session.client.phase ≠ .ended) :
    Finds (Overruns response capacity) session := by
  cases phase : session.client.phase with
  | head => exact finds_head overruns long positive manageable phase
  | chunkSize recved => exact finds_size overruns long fits manageable phase
  | chunkData recved chunkLen recvLen => exact finds_data overruns fits apart phase
  | chunkEnd recved => exact finds_end overruns phase
  | body bodyLen => exact finds_body overruns long positive phase
  | ended => exact absurd phase open_
  | resolving | connecting | sendingHead | sendingBody =>
      simp only [Overruns, phase] at overruns

include manageable in
theorem overruns_narrow {size : Nat} (asked : session.client.request = some (size, none)) :
    size < 2 ^ 32 := by
  unfold Overruns at overruns
  dsimp only at overruns
  unfold Client.request at asked
  split at asked
  · cases asked
  · cases asked
  · rename_i recved chunkLen recvLen phase
    cases asked
    simp only [phase] at overruns
    obtain ⟨done, chunk, todo, last, more, midway, room, -, rfl, -⟩ := overruns
    have count : recved = (decoded done).length := by rw [midway.count, midway.buf]
    rw [midway.content] at manageable
    rw [count]
    exact (manageable done chunk todo rfl (by omega)).2
  · cases asked
    decide
  · rename_i bodyLen phase
    cases asked
    simp only [phase] at overruns
    obtain ⟨body, more, content, -, len, -⟩ := overruns
    rw [content] at manageable
    rw [len]
    exact manageable
  · cases asked

end Receiving

/-- A state in which the caller has the code and the first bytes of the body, or the client can
go on. -/
structure Overflows (response : Response) (capacity : Nat) (transfer : Transfer) : Prop where
  ended : transfer.client.phase = .ended → TooLong response capacity transfer.client
  onward : GoesOn response.bytes transfer

/-- Every response whose body is longer than the caller's buffer fills the buffer and ends with
the client's own code, however it is split into reads, if no chunk ends exactly at the end of
the buffer. No `CHECK` fails on the way, and the client gets there within three steps for a
byte. -/
theorem overlong_received (response : Response) (posting : Bool) (capacity : UInt64)
    (positive : 0 < capacity.toNat) (long : capacity.toNat < response.body.length)
    (apart : Apart capacity.toNat response.content)
    (manageable : Manageable capacity.toNat response.content) (more : List Byte)
    (labels : List HttpTransfer.Label) (last : Transfer)
    (run : replay HttpTransfer.step (start posting capacity.toNat) labels = some last)
    (read : last.connection.received <+: response.bytes ++ more) :
    Overflows response capacity.toNat last ∧
      labels.countP active ≤ 3 * last.connection.received.length + 1 := by
  have fits : capacity.toNat < 2 ^ 64 := capacity.toNat_lt
  have pursued : Pursued (Overruns response capacity.toNat) :=
    ⟨fun _ overruns open_ => overruns_finds overruns long positive fits apart manageable open_,
      fun _ overruns _ asked => overruns_narrow overruns manageable asked⟩
  have first : Holds (Overruns response capacity.toNat) response.bytes
      (start posting capacity.toNat) :=
    holds_start posting capacity.toNat fun more => ⟨rfl, rfl, more, List.append_assoc ..⟩
  have holds := replay_always (Holds (Overruns response capacity.toNat) response.bytes)
    (fun _ label _ holds taken => holds_step pursued holds label taken) first run
  refine ⟨⟨?_, goesOn pursued holds read⟩, run_length holds.serving run⟩
  intro phase
  have overruns := holds.good more read
  have own : (view (response.bytes ++ more) last).client.phase = .ended := phase
  simp only [Overruns, own] at overruns
  exact overruns

theorem digit_hex {digit : Byte} (hex : isHex digit = true) :
    ∀ byte ∈ [digit], isHex byte = true := by
  intro byte member
  rw [List.mem_singleton.mp member]
  exact hex

theorem unextended : ([] : List Byte) = [] ∨ ([] : List Byte).head? = some 59 := Or.inl rfl

def digitLine (digit : Byte) (hex : isHex digit = true) : SizeLine :=
  ⟨[digit], [], List.cons_ne_nil digit [], digit_hex hex, unextended, trivial⟩

def lineTwo : SizeLine := digitLine 50 (by decide)

def lineOne : SizeLine := digitLine 49 (by decide)

def lineZero : SizeLine := digitLine 48 (by decide)

theorem data_present : text "ab" ≠ [] ∧ text "c" ≠ [] := by decide

theorem data_sized : (text "ab").length = lineTwo.size ∧ (text "c").length = lineOne.size := by
  decide

def pieces : Content := .chunked
  [⟨lineTwo, text "ab", data_sized.1, data_present.1⟩,
    ⟨lineOne, text "c", data_sized.2, data_present.2⟩] lineZero

theorem pieces_announced : pieces.Announced ⟨200, text "OK", [(.transferEncoding, text "chunked")]⟩ :=
  ⟨rfl, by decide, by decide, by decide⟩

def twoChunks : Response where
  head := ⟨200, text "OK", [(.transferEncoding, text "chunked")]⟩
  lines := text "HTTP/1.1 200 OK\r\nTransfer-Encoding: chunked\r\n\r\n"
  content := pieces
  accepted := twoLines.accepted
  fits := twoLines.fits
  announced := pieces_announced

def twoChunksRead : List HttpTransfer.Label :=
  [.go, .read twoChunks.lines, .go, .back, .read (text "2\r"), .read (text "\n"), .go, .back,
    .read (text "a"), .back]

theorem overlong_received_cut : ∃ last,
    replay HttpTransfer.step (start false 1) twoChunksRead = some last ∧
      last.client.phase = .ended ∧ TooLong twoChunks 1 last.client := by
  have running : (replay HttpTransfer.step (start false 1) twoChunksRead).isSome := by
    decide +kernel
  have part : ((replay HttpTransfer.step (start false 1) twoChunksRead).get
      running).connection.received <+: twoChunks.bytes ++ [] := by
    rw [← List.isPrefixOf_iff_prefix]
    decide +kernel +revert
  have phase : ((replay HttpTransfer.step (start false 1) twoChunksRead).get
      running).client.phase = .ended := by decide +kernel +revert
  refine ⟨_, (Option.some_get running).symm, phase, ?_⟩
  refine (overlong_received twoChunks false 1 (by decide) (by decide) ?_ ?_ [] twoChunksRead _
    (Option.some_get running).symm part).1.ended phase
  · intro done start
    revert done
    simp only [← List.mem_inits]
    decide
  · intro done chunk todo split room
    have member : chunk ∈ done ++ chunk :: todo := by simp
    rw [← split] at member
    have short : chunk.data.length ≤ 2 := by
      simp only [List.mem_cons, List.not_mem_nil, or_false] at member
      rcases member with rfl | rfl <;> decide
    have small : (1 : UInt64).toNat = 1 := rfl
    omega

/-- The first chunk fills a buffer of two bytes. -/
def boundaryRead : List HttpTransfer.Label :=
  [.go, .read twoChunks.lines, .go, .back, .read (text "2\r\n"), .go, .back,
    .read (text "ab"), .go, .back, .read (text "\r\n"), .go, .back, .read (text "1\r\n")]

/-- Then the `recv_till` for the second chunk does not pass its `CHECK`. -/
theorem overlong_boundary : ¬∀ (response : Response) (posting : Bool) (capacity : UInt64),
    0 < capacity.toNat → capacity.toNat < response.body.length →
    ∀ (more : List Byte) (labels : List HttpTransfer.Label) (last : Transfer),
      replay HttpTransfer.step (start posting capacity.toNat) labels = some last →
      last.connection.received <+: response.bytes ++ more →
      Overflows response capacity.toNat last ∧
        labels.countP active ≤ 3 * last.connection.received.length + 1 := by
  intro every
  have running : (replay HttpTransfer.step (start false 2) boundaryRead).isSome := by
    decide +kernel
  have part : ((replay HttpTransfer.step (start false 2) boundaryRead).get
      running).connection.received <+: twoChunks.bytes ++ [] := by
    rw [← List.isPrefixOf_iff_prefix]
    decide +kernel +revert
  have asks : ((replay HttpTransfer.step (start false 2) boundaryRead).get
      running).running = true := by decide +kernel +revert
  have refused : (HttpTransfer.step ((replay HttpTransfer.step (start false 2) boundaryRead).get
      running) .go).isSome = false := by decide +kernel +revert
  have onward := (every twoChunks false 2 (by decide) (by decide) [] boundaryRead _
    (Option.some_get running).symm part).1.onward
  rw [onward.running asks] at refused
  cases refused

end Cocoflow.HttpOverlong
