import Mathlib.Data.List.Basic
import Cocoflow.LabelledRuns
import Cocoflow.TcpConnection
import Cocoflow.OneShotReceive
import Cocoflow.HttpResponse
import Cocoflow.HttpClient

/-!
Where the chunks of a body are written. The client asks for a whole chunk when `recved +
chunk_len` does not exceed the length of the buffer, but the sum is a `size_t`: a chunk that
makes it wrap is asked for in full. Every `recv_till` stays inside the buffer exactly when no
announced chunk does that.
-/

namespace Cocoflow.HttpChunkBounds

open LabelledRuns TcpConnection OneShotReceive HttpResponse HttpClient

/-- The `recv_till` for the data of a chunk stays inside `buf[0..capacity)`. -/
def InBounds (capacity : Nat) (session : Session) : Prop :=
  match session.client.phase with
  | .chunkData recved _ recvLen => recved + recvLen ≤ capacity
  | _ => True

def announced (session : Session) : Option (Nat × Nat) :=
  match session.client.phase with
  | .chunkSize recved => (arriving session).bind fun bytes =>
      match httpChunkParse bytes with
      | .ok chunkLen => some (recved, chunkLen)
      | .error _ => none
  | _ => none

/-- An announced chunk does not end beyond the largest `size_t`. -/
def NoWrap (session : Session) : Label → Prop
  | .received =>
      match announced session with
      | some (recved, chunkLen) => recved + chunkLen < 2 ^ 64
      | none => True
  | _ => True

instance (capacity : Nat) : DecidablePred (InBounds capacity) := fun session =>
  match h : session.client.phase with
  | .chunkData recved _ recvLen =>
      decidable_of_iff (recved + recvLen ≤ capacity) (by simp [InBounds, h])
  | .resolving | .connecting | .sendingHead | .sendingBody | .head | .chunkSize _ | .chunkEnd _
  | .body _ | .ended => isTrue (by simp [InBounds, h])

instance (session : Session) : (label : Label) → Decidable (NoWrap session label)
  | .received =>
      match h : announced session with
      | some (recved, chunkLen) =>
          decidable_of_iff (recved + chunkLen < 2 ^ 64) (by simp [NoWrap, h])
      | none => isTrue (by simp [NoWrap, h])
  | .resolved _ _ | .connected _ | .sent _ | .failed | .cancel => isTrue trivial

/-- What has been received never exceeds the buffer, as long as nothing was written past it. -/
def Within (capacity : Nat) (client : Client) : Prop :=
  match client.phase with
  | .resolving | .connecting | .sendingHead | .sendingBody | .head => client.len = capacity
  | .chunkSize recved | .chunkEnd recved => client.len = capacity ∧ recved ≤ capacity
  | .chunkData recved chunkLen _ =>
      client.len = capacity ∧ recved ≤ capacity ∧ chunkLen < 2 ^ 64
  | .body _ | .ended => True

theorem saturate_lt (value : Nat) : saturate value < 2 ^ 64 := by
  unfold saturate
  omega

theorem httpChunkParse_lt {bytes : List Byte} {chunkLen : Nat}
    (parsed : httpChunkParse bytes = .ok chunkLen) : chunkLen < 2 ^ 64 := by
  unfold httpChunkParse at parsed
  split at parsed
  · cases parsed
  · split at parsed
    · cases parsed
    · cases parsed
      exact saturate_lt _

theorem recvLen_bounds {client : Client} {recved chunkLen : Nat} (fits : client.len < 2 ^ 64)
    (within : recved ≤ client.len) (size : chunkLen < 2 ^ 64) :
    recved + client.recvLen recved chunkLen ≤ client.len ↔ recved + chunkLen < 2 ^ 64 := by
  unfold Client.recvLen sizeAdd sizeSub
  split
  · rename_i longer
    omega
  · rename_i shorter
    omega

variable {capacity : Nat} {client next : Client} {session after : Session}

theorem within_parsed (head : Head) (len : client.len = capacity) :
    Within capacity (client.parsed head) := by
  unfold Client.parsed
  dsimp only
  split
  · trivial
  · split
    · exact ⟨len, Nat.zero_le _⟩
    · split
      · trivial
      · split <;> trivial

theorem within_received {bytes : List Byte} (within : Within capacity session.client)
    (bounds : InBounds capacity session) (fits : capacity < 2 ^ 64)
    (taken : session.client.received bytes = some next) : Within capacity next := by
  unfold Client.received at taken
  unfold Within at within
  unfold InBounds at bounds
  split at taken
  · rename_i phase
    simp only [phase] at within
    unfold Client.gotHead at taken
    split at taken
    · cases taken
    · cases taken
      trivial
    · cases taken
      exact within_parsed _ within
  · rename_i recved phase
    simp only [phase] at within
    cases taken
    unfold Client.gotSize
    split
    · trivial
    · rename_i chunkLen parsed
      split
      · trivial
      · exact ⟨within.1, within.2, httpChunkParse_lt parsed⟩
  · rename_i recved chunkLen recvLen phase
    simp only [phase] at within bounds
    cases taken
    unfold Client.gotData
    dsimp only
    split
    · trivial
    · refine ⟨within.1, ?_⟩
      unfold sizeAdd
      omega
  · rename_i recved phase
    simp only [phase] at within
    cases taken
    unfold Client.gotEnd
    split
    · trivial
    · exact within
  · cases taken
    unfold Client.gotBody
    dsimp only
    split <;> trivial
  · cases taken

theorem within_step (within : Within capacity session.client)
    (bounds : InBounds capacity session) (fits : capacity < 2 ^ 64) (label : Label)
    (taken : step session label = some after) : Within capacity after.client := by
  cases label with
  | resolved ret errmsg =>
      simp only [step] at taken
      split at taken
      · rename_i phase
        cases taken
        simp only [Within, phase] at within
        unfold Client.resolved
        split
        · trivial
        · exact within
      · cases taken
  | connected ret =>
      simp only [step] at taken
      split at taken
      · rename_i phase
        cases taken
        simp only [Within, phase] at within
        unfold Client.connected
        split
        · trivial
        · exact within
      · cases taken
  | sent ret =>
      simp only [step] at taken
      split at taken
      · rename_i phase
        cases taken
        simp only [Within, phase] at within
        unfold Client.sentHead
        split
        · trivial
        · cases session.client.posting <;> exact within
      · split at taken
        · rename_i phase
          cases taken
          simp only [Within, phase] at within
          unfold Client.sentBody
          split
          · trivial
          · exact within
        · cases taken
  | received =>
      obtain ⟨bytes, -, rest⟩ := Option.bind_eq_some_iff.mp taken
      obtain ⟨client, got, rfl⟩ := Option.map_eq_some_iff.mp rest
      exact within_received within bounds fits got
  | failed =>
      simp only [step] at taken
      split at taken
      · obtain ⟨client, got, rfl⟩ := Option.map_eq_some_iff.mp taken
        unfold Client.unreceived at got
        split at got <;> cases got <;> trivial
      · cases taken
  | cancel =>
      simp only [step] at taken
      split at taken
      · cases taken
      · cases taken
        trivial

theorem inBounds_received {bytes stream : List Byte} (within : Within capacity session.client)
    (fits : capacity < 2 ^ 64) (arrives : arriving session = some bytes)
    (taken : session.client.received bytes = some next) :
    InBounds capacity { client := next, stream } ↔ NoWrap session .received := by
  unfold Client.received at taken
  unfold Within at within
  split at taken
  · rename_i phase
    have quiet : NoWrap session .received := by simp [NoWrap, announced, phase]
    refine ⟨fun _ => quiet, fun _ => ?_⟩
    unfold Client.gotHead at taken
    split at taken
    · cases taken
    · cases taken
      trivial
    · cases taken
      unfold Client.parsed
      dsimp only
      split
      · trivial
      · split
        · trivial
        · split
          · trivial
          · split <;> trivial
  · rename_i recved phase
    simp only [phase] at within
    obtain ⟨len, received_⟩ := within
    simp only [NoWrap, announced, phase, arrives, Option.bind_some]
    cases taken
    unfold Client.gotSize
    split
    · rename_i parsed
      exact ⟨fun _ => by rw [parsed]; trivial, fun _ => trivial⟩
    · rename_i chunkLen parsed
      rw [parsed]
      split
      · rename_i last
        refine ⟨fun _ => ?_, fun _ => trivial⟩
        dsimp only
        omega
      · -- the announced length is compared after the sum may have wrapped
        have bounds : recved + session.client.recvLen recved chunkLen ≤ session.client.len ↔
            recved + chunkLen < 2 ^ 64 :=
          recvLen_bounds (by omega) (by omega) (httpChunkParse_lt parsed)
        rw [len] at bounds
        exact bounds
  · rename_i recved chunkLen recvLen phase
    have quiet : NoWrap session .received := by simp [NoWrap, announced, phase]
    refine ⟨fun _ => quiet, fun _ => ?_⟩
    cases taken
    unfold Client.gotData
    dsimp only
    split <;> trivial
  · rename_i recved phase
    have quiet : NoWrap session .received := by simp [NoWrap, announced, phase]
    refine ⟨fun _ => quiet, fun _ => ?_⟩
    cases taken
    unfold Client.gotEnd
    split <;> trivial
  · rename_i bodyLen phase
    have quiet : NoWrap session .received := by simp [NoWrap, announced, phase]
    refine ⟨fun _ => quiet, fun _ => ?_⟩
    cases taken
    unfold Client.gotBody
    dsimp only
    split <;> trivial
  · cases taken

theorem inBounds_step (within : Within capacity session.client)
    (fits : capacity < 2 ^ 64) (label : Label)
    (taken : step session label = some after) :
    InBounds capacity after ↔ NoWrap session label := by
  cases label with
  | resolved ret errmsg =>
      refine ⟨fun _ => trivial, fun _ => ?_⟩
      simp only [step] at taken
      split at taken
      · cases taken
        unfold Client.resolved
        split <;> trivial
      · cases taken
  | connected ret =>
      refine ⟨fun _ => trivial, fun _ => ?_⟩
      simp only [step] at taken
      split at taken
      · cases taken
        unfold Client.connected
        split <;> trivial
      · cases taken
  | sent ret =>
      refine ⟨fun _ => trivial, fun _ => ?_⟩
      simp only [step] at taken
      split at taken
      · cases taken
        unfold Client.sentHead
        split
        · trivial
        · cases session.client.posting <;> trivial
      · split at taken
        · cases taken
          unfold Client.sentBody
          split <;> trivial
        · cases taken
  | received =>
      obtain ⟨bytes, arrives, rest⟩ := Option.bind_eq_some_iff.mp taken
      obtain ⟨client, got, rfl⟩ := Option.map_eq_some_iff.mp rest
      exact inBounds_received within fits arrives got
  | failed =>
      refine ⟨fun _ => trivial, fun _ => ?_⟩
      simp only [step] at taken
      split at taken
      · obtain ⟨client, got, rfl⟩ := Option.map_eq_some_iff.mp taken
        unfold Client.unreceived at got
        split at got <;> cases got <;> trivial
      · cases taken
  | cancel =>
      refine ⟨fun _ => trivial, fun _ => ?_⟩
      simp only [step] at taken
      split at taken
      · cases taken
      · cases taken
        trivial

theorem within_start (posting : Bool) (url : Except Int Url) :
    Within capacity (Client.start posting capacity url) ∧
      ∀ stream, InBounds capacity { client := Client.start posting capacity url, stream } := by
  unfold Client.start
  dsimp only
  split
  · exact ⟨trivial, fun _ => trivial⟩
  · split
    · exact ⟨trivial, fun _ => trivial⟩
    · split
      · exact ⟨trivial, fun _ => trivial⟩
      · split
        · exact ⟨trivial, fun _ => trivial⟩
        · exact ⟨rfl, fun _ => trivial⟩

/-- Whatever the peer sends, every `recv_till` for the data of a chunk stays inside the
caller's buffer if and only if no announced chunk makes the sum of the sizes wrap. -/
theorem chunk_bounds_iff (posting : Bool) (url : Except Int Url) (capacity : UInt64)
    (stream : List Byte) (labels : List Label) (last : Session)
    (run : replay step { client := Client.start posting capacity.toNat url, stream } labels =
      some last) :
    Throughout step (InBounds capacity.toNat)
        { client := Client.start posting capacity.toNat url, stream } labels ↔
      Along step NoWrap { client := Client.start posting capacity.toNat url, stream } labels := by
  have fits : capacity.toNat < 2 ^ 64 := capacity.toNat_lt
  obtain ⟨within, bounds⟩ := within_start posting url
  exact throughout_iff_along (fun session => Within capacity.toNat session.client)
    (InBounds capacity.toNat)
    (fun _ label _ within bounds taken _ => within_step within bounds fits label taken)
    (fun _ label _ within _ taken => inBounds_step within fits label taken)
    within (bounds stream) run

def secondChunk (size : String) : List Byte :=
  text "HTTP/1.1 200 OK\r\nTransfer-Encoding: chunked\r\n\r\n1\r\na\r\n" ++ text size ++ crlf

def exampleUrl : Except Int Url :=
  .ok { protocol := text "http", user := [], password := [], host := text "h" }

def secondAnnounced : List Label :=
  [.resolved 0 "", .connected 0, .sent 0, .received, .received, .received, .received, .received]

theorem chunk_bounds_second :
    Throughout step (InBounds 8) { client := Client.start false 8 exampleUrl, stream := secondChunk "ff" }
      secondAnnounced := by
  have reached : (replay step
      { client := Client.start false 8 exampleUrl, stream := secondChunk "ff" }
      secondAnnounced).isSome := by decide +kernel
  exact (chunk_bounds_iff false exampleUrl 8 (secondChunk "ff") secondAnnounced _
    (Option.some_get reached).symm).mpr (by decide +kernel)

/-- The sum of 1 and the largest size is 0. -/
theorem chunk_bounds_wrapped : ¬∀ (posting : Bool) (url : Except Int Url) (capacity : UInt64)
    (stream : List Byte) (labels : List Label) (last : Session),
    replay step { client := Client.start posting capacity.toNat url, stream } labels =
      some last → InBounds capacity.toNat last := by
  intro claimed
  have reached : (replay step
      { client := Client.start false 8 exampleUrl, stream := secondChunk "ffffffffffffffff" }
      secondAnnounced).isSome := by decide +kernel
  have outside : ¬InBounds 8 ((replay step
      { client := Client.start false 8 exampleUrl, stream := secondChunk "ffffffffffffffff" }
      secondAnnounced).get reached) := by decide +kernel +revert
  exact outside (claimed false exampleUrl 8 _ secondAnnounced _ (Option.some_get reached).symm)

end Cocoflow.HttpChunkBounds
