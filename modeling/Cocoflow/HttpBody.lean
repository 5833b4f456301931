import Mathlib.Data.List.Basic
import Cocoflow.TcpConnection
import Cocoflow.FirstMatch
import Cocoflow.TextLines
import Cocoflow.HttpResponse
import Cocoflow.HttpHead
import Cocoflow.HttpClient

/-!
What a response says, independently of how the client reads it: a head, and behind it the
body as it is or in chunks. A chunk is a size line, as many bytes as it announces, and a CRLF;
a size line with the value 0 ends the body.
-/

namespace Cocoflow.HttpBody

open TcpConnection HttpResponse HttpHead HttpClient

structure Chunk where
  line : SizeLine
  data : List Byte
  sized : data.length = line.size
  nonempty : data ≠ []

namespace Chunk

def bytes (chunk : Chunk) : List Byte := chunk.line.bytes ++ (chunk.data ++ crlf)

end Chunk

def encoded (chunks : List Chunk) : List Byte := chunks.flatMap Chunk.bytes

def decoded (chunks : List Chunk) : List Byte := chunks.flatMap Chunk.data

theorem encoded_snoc (chunks : List Chunk) (chunk : Chunk) :
    encoded (chunks ++ [chunk]) =
      encoded chunks ++ (chunk.line.bytes ++ (chunk.data ++ crlf)) := by
  simp [encoded, Chunk.bytes]

theorem decoded_snoc (chunks : List Chunk) (chunk : Chunk) :
    decoded (chunks ++ [chunk]) = decoded chunks ++ chunk.data := by
  simp [decoded]

theorem decoded_unique {chunks others : List Chunk} {last final : SizeLine}
    {more rest : List Byte} (zero : last.size = 0) (zero_ : final.size = 0)
    (same : encoded chunks ++ (last.bytes ++ more) =
      encoded others ++ (final.bytes ++ rest)) : decoded chunks = decoded others := by
  induction chunks generalizing others with
  | nil =>
      cases others with
      | nil => rfl
      | cons chunk tail =>
          simp only [encoded, List.flatMap_nil, List.nil_append, List.flatMap_cons, Chunk.bytes,
            List.append_assoc] at same
          obtain ⟨size, -⟩ := line_unique same
          rw [zero, ← chunk.sized, eq_comm, List.length_eq_zero_iff] at size
          exact absurd size chunk.nonempty
  | cons chunk tail ih =>
      cases others with
      | nil =>
          simp only [encoded, List.flatMap_nil, List.nil_append, List.flatMap_cons, Chunk.bytes,
            List.append_assoc] at same
          obtain ⟨size, -⟩ := line_unique same
          rw [zero_, ← chunk.sized, List.length_eq_zero_iff] at size
          exact absurd size chunk.nonempty
      | cons other tail_ =>
          simp only [encoded, List.flatMap_cons, Chunk.bytes, List.append_assoc] at same
          obtain ⟨size, behind⟩ := line_unique same
          rw [← chunk.sized, ← other.sized] at size
          obtain ⟨data, behind⟩ := List.append_inj behind size
          have tails := ih (List.append_cancel_left behind)
          simp only [decoded, List.flatMap_cons, data]
          exact congrArg _ tails

structure Opens (stream rest : List Byte) (head : Head) : Prop where
  split : ∃ bytes, httpRspParse Client.needs bytes = some (.ok head) ∧ stream = bytes ++ rest

theorem opens_unique {stream rest more : List Byte} {head other : Head}
    (opens : Opens stream rest head) (again : Opens stream more other) :
    rest = more ∧ head = other := by
  obtain ⟨bytes, accepted, split⟩ := opens.split
  obtain ⟨others, accepted_, split_⟩ := again.split
  have length : bytes.length = others.length := by
    have ends := head_end rest accepted
    rw [← split, split_, head_end more accepted_] at ends
    exact (Option.some.inj ends).symm
  obtain ⟨rfl, behind⟩ := List.append_inj (split.symm.trans split_) length
  rw [accepted_] at accepted
  exact ⟨behind, (Except.ok.inj (Option.some.inj accepted)).symm⟩

/-- A whole body stands behind the head: in chunks that a size line of value 0 ends, or as many
bytes as the head says. -/
def Carries (head : Head) (rest body : List Byte) : Prop :=
  if (head.headerFields.value .transferEncoding).isSome then
    ∃ (chunks : List Chunk) (last : SizeLine) (more : List Byte), last.size = 0 ∧
      rest = encoded chunks ++ (last.bytes ++ more) ∧ body = decoded chunks
  else ∃ value more, head.headerFields.value .contentLength = some value ∧
    rest = body ++ more ∧ body.length = decimal value

theorem carries_unique {head : Head} {rest body other : List Byte}
    (carries : Carries head rest body) (again : Carries head rest other) : body = other := by
  unfold Carries at carries again
  split at carries
  · rename_i chunked
    rw [if_pos chunked] at again
    obtain ⟨chunks, last, more, zero, split, rfl⟩ := carries
    obtain ⟨others, final, more_, zero_, split_, rfl⟩ := again
    exact decoded_unique zero zero_ (split.symm.trans split_)
  · rename_i whole
    rw [if_neg whole] at again
    obtain ⟨value, more, held, split, length⟩ := carries
    obtain ⟨value_, more_, held_, split_, length_⟩ := again
    obtain rfl : value = value_ := Option.some.inj (held.symm.trans held_)
    exact (List.append_inj (split.symm.trans split_) (length.trans length_.symm)).1

def StartsWith (head : Head) (rest start : List Byte) : Prop :=
  if (head.headerFields.value .transferEncoding).isSome then
    ∃ (chunks : List Chunk) (line : SizeLine) (data more : List Byte), data.length ≤ line.size ∧
      rest = encoded chunks ++ (line.bytes ++ (data ++ more)) ∧ start = decoded chunks ++ data
  else ∃ value more, head.headerFields.value .contentLength = some value ∧
    rest = start ++ more ∧ start.length ≤ decimal value

end Cocoflow.HttpBody
