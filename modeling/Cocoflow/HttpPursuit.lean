import Mathlib.Data.List.Basic
import Cocoflow.LabelledRuns
import Cocoflow.TcpConnection
import Cocoflow.FirstMatch
import Cocoflow.RecvTill
import Cocoflow.OneShotReceive
import Cocoflow.SoleReceiver
import Cocoflow.HttpResponse
import Cocoflow.HttpHead
import Cocoflow.HttpClient
import Cocoflow.HttpBody
import Cocoflow.HttpTransfer

/-!
A client that finds what it asks for. If, in front of a stream, the client's next request is
supplied by the stream and leaves the client in front of such a stream again, then the client
gets to its end on a connection that reads the stream in pieces of any size.
-/

namespace Cocoflow.HttpPursuit

open LabelledRuns TcpConnection FirstMatch RecvTill OneShotReceive SoleReceiver HttpResponse
  HttpHead HttpClient HttpTransfer

/-- The client's next request, its bytes and what it does with them. -/
structure Finds (good : Session → Prop) (session : Session) : Prop where
  exists_ : ∃ (size : Nat) (pattern : Option (List Byte)) (bytes rest : List Byte)
    (next : Client),
    session.client.request = some (size, pattern) ∧ 0 < size ∧
    session.stream = bytes ++ rest ∧ Supplied size pattern bytes session.stream ∧
    session.client.received bytes = some next ∧
    good { client := next, stream := rest }

/-- Up to its end the client finds what it asks for, in pieces of less than 2^32 bytes where it
asks for a length. -/
structure Pursued (good : Session → Prop) : Prop where
  finds : ∀ session, good session → session.client.phase ≠ .ended → Finds good session
  narrow : ∀ session, good session → ∀ size, session.client.request = some (size, none) →
    size < 2 ^ 32

/-- The client is served, and on every continuation of what was read it stands in front of the
stream. -/
structure Holds (good : Session → Prop) (total : List Byte) (transfer : Transfer) : Prop where
  serving : Serving transfer
  good : ∀ more, transfer.connection.received <+: total ++ more →
    good (view (total ++ more) transfer)

/-- A state in which the client can go on: control returns to it or to the event loop, or the
next byte of the stream is read. -/
structure GoesOn (total : List Byte) (transfer : Transfer) : Prop where
  running : transfer.running = true → (HttpTransfer.step transfer .go).isSome
  standing : transfer.running = false → transfer.connection.standing = true →
    (HttpTransfer.step transfer .back).isSome
  waiting : transfer.running = false → transfer.connection.standing = false →
    transfer.client.phase ≠ .ended →
    ∃ byte, transfer.connection.received ++ [byte] <+: total ∧
      (HttpTransfer.step transfer (.read [byte])).isSome

section Found

variable {good : Session → Prop} {session : Session} {rest : List Byte}

theorem head_found {head : Head} {lines : List Byte} (phase : session.client.phase = .head)
    (accepted : httpRspParse Client.needs lines = some (.ok head))
    (fits : lines.length ≤ Client.tmpSize) (stream : session.stream = lines ++ rest)
    (later : good { client := session.client.parsed head, stream := rest }) :
    Finds good session := by
  have ends := head_end rest accepted
  refine ⟨Client.tmpSize, some [13, 10, 13, 10], lines, rest, session.client.parsed head,
    by simp [Client.request, phase], by decide, stream,
    ⟨⟨_, stream.symm⟩, by rw [stream]; exact ends, fits⟩, ?_, later⟩
  simp only [Client.received, phase, Client.gotHead, accepted]

theorem size_found {recved : Nat} {line : SizeLine} (phase : session.client.phase = .chunkSize recved)
    (fits : line.bytes.length ≤ Client.tmpSize) (stream : session.stream = line.bytes ++ rest)
    (later : good { client := session.client.gotSize recved line.bytes, stream := rest }) :
    Finds good session := by
  refine ⟨Client.tmpSize, some crlf, line.bytes, rest, session.client.gotSize recved line.bytes,
    by simp [Client.request, phase], by decide, stream,
    ⟨⟨_, stream.symm⟩, by rw [stream]; exact line.bytes_end rest, fits⟩, ?_, later⟩
  simp [Client.received, phase]

-- What is asked for without a pattern is there as soon as its length is.
theorem fill_found {size : Nat} {bytes : List Byte} {next : Client}
    (asked : session.client.request = some (size, none)) (some_ : 0 < size)
    (stream : session.stream = bytes ++ rest) (length : bytes.length = size)
    (takes : session.client.received bytes = some next)
    (later : good { client := next, stream := rest }) : Finds good session :=
  ⟨size, none, bytes, rest, next, asked, some_, stream, ⟨⟨rest, stream.symm⟩, length⟩, takes,
    later⟩

end Found

theorem holds_start {good : Session → Prop} {total : List Byte} (posting : Bool) (capacity : Nat)
    (first : ∀ more, good {
      client := (start posting capacity).client
      stream := total ++ more }) : Holds good total (start posting capacity) := by
  refine ⟨serving_start posting capacity, fun more _ => ?_⟩
  simpa [view, start, consumed] using first more

theorem received_good {good : Session → Prop} {session next : Session}
    (finds : session.client.phase ≠ .ended → Finds good session)
    (taken : HttpClient.step session .received = some next) : good next := by
  obtain ⟨bytes, arrives, rest⟩ := Option.bind_eq_some_iff.mp taken
  obtain ⟨client, got, rfl⟩ := Option.map_eq_some_iff.mp rest
  have open_ : session.client.phase ≠ .ended := by
    intro phase
    simp [Client.received, phase] at got
  obtain ⟨size, pattern, own, behind, after, asked, some_, split, supplied, takes, later⟩ :=
    (finds open_).exists_
  have same : bytes = own := by
    simp only [arriving, asked, Option.bind_some] at arrives
    rw [if_neg (by omega), supplied_oneShot supplied] at arrives
    exact (Option.some.inj arrives).symm
  rw [same, takes] at got
  cases got
  rw [same, split, List.drop_left]
  exact later

theorem request_pattern {client : Client} {size : Nat} {pattern : List Byte}
    (asked : client.request = some (size, some pattern)) :
    pattern ≠ [] ∧ pattern.length ≤ 1024 := by
  unfold Client.request at asked
  split at asked <;> cases asked <;> exact ⟨by decide, by decide⟩

section Progress

variable {good : Session → Prop} {total : List Byte} {transfer next : Transfer}
  (pursued : Pursued good) (holds : Holds good total transfer)
include holds

include pursued in
theorem holds_step (label : HttpTransfer.Label)
    (taken : HttpTransfer.step transfer label = some next) : Holds good total next := by
  obtain ⟨kept, -, -⟩ := serving_step holds.serving label taken (List.prefix_refl _)
  refine ⟨kept, fun more read => ?_⟩
  obtain ⟨-, matched, grown⟩ := serving_step holds.serving label taken read
  have before := holds.good more (grown.trans read)
  rcases matched with same | received
  · rw [same]
    exact before
  · exact received_good (pursued.finds _ before) received

include pursued in
theorem advance_total {request : Request} {after : Connected} {more : List Byte}
    (steady : Steady after)
    (asked : transfer.client.request = some (request.capacity, request.pattern))
    (some_ : 0 < request.capacity)
    (outcome : Outcome request transfer.connection.completed after)
    (grown : transfer.connection.received <+: after.received)
    (read : after.received <+: total ++ more) : (transfer.advance after).isSome := by
  cases outcome with
  | served done same history vacant =>
      obtain ⟨arrives, length⟩ := served_arrives steady asked same some_ history read
      rw [advance_served history length, Option.isSome_map]
      have before := holds.good more (grown.trans read)
      have open_ : (view (total ++ more) transfer).client.phase ≠ .ended := by
        intro phase
        have none_ : transfer.client.request = none := by
          have own : transfer.client.phase = .ended := phase
          simp [Client.request, own]
        rw [none_] at asked
        cases asked
      obtain ⟨size, pattern, own, -, client, asked_, large, -, supplied, takes, -⟩ :=
        (pursued.finds _ before open_).exists_
      have bytes : done.data = own := by
        simp only [arriving, asked_, Option.bind_some] at arrives
        rw [if_neg (by omega), supplied_oneShot supplied] at arrives
        exact (Option.some.inj arrives).symm
      rw [bytes]
      have takes_ : transfer.client.received own = some client := takes
      rw [takes_]
      rfl
  | waiting waits same history waiting =>
      rw [advance_waiting history]
      rfl

variable {more : List Byte} (read : transfer.connection.received <+: total ++ more)

include pursued read in
theorem go_total (running : transfer.running = true) :
    (HttpTransfer.step transfer .go).isSome := by
  cases holds.serving.control with
  | waits request idle => rw [idle] at running; cases running
  | runs own vacant =>
      have open_ : transfer.client.phase ≠ .ended := by
        rw [own, decide_eq_true_eq] at running
        exact running
      obtain ⟨size, pattern, -, -, -, asked, some_, -⟩ :=
        (pursued.finds _ (holds.good more read) open_).exists_
      have asked_ : transfer.client.request = some (size, pattern) := asked
      have proper : pattern ≠ some [] := by
        intro empty
        rw [empty] at asked_
        exact (request_pattern asked_).1 rfl
      obtain ⟨request, after, rfl, rfl, issued, outcome⟩ := issue_vacant vacant some_ proper
      obtain ⟨steady, grown⟩ := steady_step holds.serving.steady
        (show Simple (.issue _ _) from trivial) issued
      have still : after.received <+: total ++ more := by
        rw [(issue_frame issued).received]
        exact read
      simp only [HttpTransfer.step, running, if_true, asked_, Option.bind_some, issued]
      exact advance_total pursued holds steady asked_ some_ outcome grown still

theorem back_total (idle : transfer.running = false)
    (standing : transfer.connection.standing = true) :
    (HttpTransfer.step transfer .back).isSome := by
  obtain ⟨after, stepped, history⟩ : ∃ after,
      RecvTill.step transfer.connection .back = some after ∧
        after.completed = transfer.connection.completed := by
    cases holds.serving.control with
    | waits request _ _ waiting =>
        obtain ⟨after, stepped, -, history⟩ := back_waiting waiting standing
        exact ⟨after, stepped, history⟩
    | runs _ vacant =>
        obtain ⟨after, stepped, -, history⟩ := back_vacant vacant standing
        exact ⟨after, stepped, history⟩
  simp only [HttpTransfer.step, idle, Bool.false_eq_true, if_false, stepped, Option.bind_some]
  rw [advance_waiting history]
  rfl

include pursued read in
theorem waiting_short {request : Request}
    (asked : transfer.client.request = some (request.capacity, request.pattern))
    (waiting : Waiting transfer.connection request) :
    transfer.connection.received.length < total.length := by
  by_contra all
  -- with the whole response read, what the client asks for would be there
  have whole : total <+: transfer.connection.received :=
    List.prefix_of_prefix_length_le (List.prefix_append _ _) read (by omega)
  obtain ⟨others, same⟩ := whole
  have awaits := holds.good others (by simp [same])
  have open_ : (view (total ++ others) transfer).client.phase ≠ .ended := by
    intro phase
    have own : transfer.client.phase = .ended := phase
    simp [Client.request, own] at asked
  obtain ⟨size, pattern, bytes, -, -, asked_, -, -, supplied, -⟩ :=
    (pursued.finds _ awaits open_).exists_
  have equal : some (request.capacity, request.pattern) = some (size, pattern) :=
    asked.symm.trans asked_
  simp only [Option.some.injEq, Prod.mk.injEq] at equal
  obtain ⟨rfl, rfl⟩ := equal
  refine waiting_unsupplied holds.serving.steady waiting bytes ?_
  simpa only [view, same, consumed] using supplied

include pursued read in
theorem read_total (idle : transfer.running = false)
    (stopped : transfer.connection.standing = false) (open_ : transfer.client.phase ≠ .ended) :
    ∃ byte, transfer.connection.received ++ [byte] <+: total ∧
      (HttpTransfer.step transfer (.read [byte])).isSome := by
  cases holds.serving.control with
  | runs own vacant =>
      rw [idle, eq_comm, decide_eq_false_iff_not] at own
      exact absurd open_ own
  | waits request _ asked waiting =>
      have short := waiting_short pursued holds read asked waiting
      have start : transfer.connection.received <+: total :=
        List.prefix_of_prefix_length_le read (List.prefix_append _ _) (by omega)
      obtain ⟨left, split⟩ := start
      cases left with
      | nil =>
          rw [← split, List.append_nil] at short
          omega
      | cons byte left =>
          have inside : transfer.connection.received ++ [byte] <+: total :=
            ⟨left, by rw [← split]; simp⟩
          refine ⟨byte, inside, ?_⟩
          have searching := holds.serving.steady.inOrder.searching request
            (by simp [waiting.queue])
          have extent := searching.extent
          have accepted := read_byte holds.serving.steady waiting stopped byte
            (by
              intro kind
              rw [kind] at asked
              have bound := pursued.narrow _ (holds.good more read) _ asked
              omega)
            (by
              intro pattern kind
              rw [kind] at asked
              exact (request_pattern asked).2)
          obtain ⟨after, stepped⟩ := Option.isSome_iff_exists.mp accepted
          obtain ⟨steady, grown⟩ := steady_step holds.serving.steady
            (show Simple (.read _) from trivial) stepped
          have outcome := read_waiting holds.serving.steady.inOrder waiting stepped
          have still : after.received <+: total ++ [] := by
            rw [(read_frame holds.serving.steady.sized stepped).2.2, List.append_nil]
            exact inside
          simp only [HttpTransfer.step, idle, Bool.false_eq_true, if_false, stepped,
            Option.bind_some]
          exact advance_total pursued holds steady asked
            (waits_positive holds.serving.steady waiting) outcome grown still

include pursued read in
theorem goesOn : GoesOn total transfer where
  running := go_total pursued holds read
  standing := back_total holds
  waiting := read_total pursued holds read

end Progress

end Cocoflow.HttpPursuit
