import Mathlib.Data.List.Basic
import Cocoflow.RecvTill

/-!
When `tcp_alloc_cb1` can trust the queue. Every way back into the event loop passes
`check_remaining`, which stops the reading when no request is left and hands the residual to
the next request, except the way through `recv_till::cancel`: it leaves that work to the
callback of `uv_async_send`, and the socket is read on in the meantime.
-/

namespace Cocoflow.DeferredCleanup

open LabelledRuns TcpConnection RecvTill

/-- libuv may call `tcp_alloc_cb1`: control is in the event loop and reading is started. -/
def Readable (connection : Connected) : Prop :=
  connection.standing = false ∧ connection.receiving = .recvTill

def AllocChecks (connection : Connected) : Prop :=
  connection.curAlloc = none ∧ ∃ request others, connection.queue = request :: others ∧
    (request.pattern = none → connection.buf1 = [])

/-- No fallback callback is pending that has work to do: that would stop the reading
because no request is queued, or serve the next request from the residual. -/
def CleanedUp (connection : Connected) : Prop :=
  connection.asyncPending = true → connection.queue ≠ [] ∧ connection.buf1 = []

/-- The modes of the connection, and what holds in the event loop when no callback is
pending. -/
structure Settled (connection : Connected) : Prop where
  free : connection.curAlloc = none
  mode : connection.receiving = .ready ∧ connection.queue = [] ∧
      connection.asyncPending = false ∧ connection.standing = false ∨
    connection.receiving = .recvTill
  served : Readable connection → connection.asyncPending = false → AllocChecks connection

theorem Settled.allocChecks {connection : Connected} (settled : Settled connection)
    (readable : Readable connection) (clean : CleanedUp connection) :
    AllocChecks connection := by
  cases pending : connection.asyncPending with
  | false => exact settled.served readable pending
  | true =>
      obtain ⟨queued, empty⟩ := clean pending
      obtain ⟨request, others, split⟩ := List.exists_cons_of_ne_nil queued
      exact ⟨settled.free, request, others, split, fun _ => empty⟩

/-- Whatever state it is called in, `check_remaining` returns to the event loop in a settled
one. -/
theorem settled_checkRemaining {connection next : Connected}
    (taken : connection.checkRemaining = some next) (free : connection.curAlloc = none)
    (mode : connection.receiving = .recvTill) : Settled next := by
  rcases checkRemaining_cases taken with
    ⟨request, others, rest, served, queued, -, remains, rfl⟩ |
    ⟨request, others, rest, waiting, queued, -, remains, rfl⟩ |
    ⟨empty, -, rfl⟩ | ⟨empty, nonempty, rfl⟩
  · exact ⟨free, Or.inr mode, fun readable => by cases readable.1⟩
  · refine ⟨free, Or.inr mode, fun _ _ => ⟨free, waiting, others, rfl, ?_⟩⟩
    intro kind
    exact remains.fill_waits (remains.pattern ▸ kind)
  · exact ⟨free, Or.inl ⟨rfl, empty, rfl, rfl⟩, fun readable => by cases readable.2⟩
  · refine ⟨free, Or.inr mode, fun _ _ => ⟨free, ?_⟩⟩
    obtain ⟨request, others, split⟩ := List.exists_cons_of_ne_nil nonempty
    exact ⟨request, others, split, fun _ => empty⟩

theorem settled_enqueue {connection next : Connected} {request : Request}
    (taken : connection.enqueue request = some next) (free : connection.curAlloc = none)
    (quiet : connection.receiving = .ready →
      connection.queue = [] ∧ (request.pattern = none → connection.buf1 = []))
    (served : Readable connection → connection.asyncPending = false → AllocChecks connection) :
    Settled next := by
  rcases enqueue_cases taken with ⟨mode, rfl⟩ | ⟨mode, rfl⟩
  · obtain ⟨empty, fits⟩ := quiet mode
    refine ⟨free, Or.inr rfl, fun _ _ => ⟨free, request, [], ?_, fits⟩⟩
    dsimp only
    rw [empty, List.nil_append]
  · refine ⟨free, Or.inr mode, fun readable idle => ?_⟩
    obtain ⟨-, head, others, split, fits⟩ := served readable idle
    refine ⟨free, head, others ++ [request], ?_, fits⟩
    dsimp only
    rw [split, List.cons_append]

theorem settled_issue {connection next : Connected} {capacity : Nat}
    {pattern : Option (List Byte)} (settled : Settled connection)
    (taken : step connection (.issue capacity pattern) = some next) : Settled next := by
  obtain ⟨free, mode, served⟩ := settled
  obtain ⟨request, made, ran⟩ := issue_cases taken
  have empty_of_ready : connection.receiving = .ready → connection.queue = [] := by
    intro ready
    rcases mode with ⟨-, empty, -, -⟩ | reading
    · exact empty
    · rw [ready] at reading
      cases reading
  rcases run_cases ran with
    ⟨rest, done, alone, remains, rfl⟩ | ⟨rest, waiting, alone, remains, waits⟩ | ⟨busy, waits⟩
  · refine ⟨free, mode, fun readable idle => ?_⟩
    obtain ⟨-, head, others, split, -⟩ := served readable idle
    dsimp only at alone
    rw [alone] at split
    cases split
  · refine settled_enqueue waits free ?_ ?_
    · intro ready
      refine ⟨empty_of_ready ready, fun kind => ?_⟩
      exact remains.fill_waits (remains.pattern ▸ kind)
    · intro readable idle
      obtain ⟨-, head, others, split, -⟩ := served readable idle
      dsimp only at alone
      rw [alone] at split
      cases split
  · refine settled_enqueue waits free ?_ served
    intro ready
    refine ⟨empty_of_ready ready, fun _ => ?_⟩
    rcases busy with empty | nonempty
    · exact empty
    · exact absurd (empty_of_ready ready) nonempty

theorem settled_read {connection next : Connected} {chunk : List Byte}
    (taken : step connection (.read chunk) = some next) : Settled next := by
  obtain ⟨-, mode, free, request, others, size1, allocated, queued, outcome⟩ :=
    read_cases taken
  rcases outcome with ⟨-, fits, rfl⟩ | ⟨-, -, -, rfl⟩ | ⟨-, -, -, continues⟩ |
    ⟨rest, done, -, -, rfl⟩ | ⟨rest, waiting, -, -, continues⟩
  · exact ⟨free, Or.inr mode, fun _ _ => ⟨free, request, others, queued, fits⟩⟩
  · exact ⟨free, Or.inr mode, fun readable => by cases readable.1⟩
  · exact settled_checkRemaining continues free mode
  · exact ⟨free, Or.inr mode, fun readable => by cases readable.1⟩
  · exact settled_checkRemaining continues free mode

theorem settled_step (connection : Connected) (label : Label) (next : Connected)
    (settled : Settled connection) (taken : step connection label = some next) :
    Settled next := by
  cases label with
  | issue capacity pattern => exact settled_issue settled taken
  | cancel id =>
      obtain ⟨request, size1, allocated, found, -, rfl⟩ := cancel_cases taken
      refine ⟨settled.free, Or.inr ?_, fun _ idle => by cases idle⟩
      rcases settled.mode with ⟨-, empty, -, -⟩ | reading
      · rw [empty] at found
        cases found
      · exact reading
  | read chunk => exact settled_read taken
  | fallback =>
      have pending : connection.asyncPending = true := by
        by_contra idle
        simp [step, idle] at taken
      obtain ⟨later, continues⟩ := resume_cases (Or.inl rfl) taken
      refine settled_checkRemaining continues settled.free ?_
      rcases settled.mode with ⟨-, -, idle, -⟩ | reading
      · rw [pending] at idle
        cases idle
      · exact reading
  | back =>
      have inside : connection.standing = true := by
        by_contra outside
        simp [step, outside] at taken
      obtain ⟨later, continues⟩ := resume_cases (Or.inr rfl) taken
      refine settled_checkRemaining continues settled.free ?_
      rcases settled.mode with ⟨-, -, -, outside⟩ | reading
      · rw [inside] at outside
        cases outside
      · exact reading

theorem settled_new : Settled {} :=
  ⟨rfl, Or.inl ⟨rfl, rfl, rfl, rfl⟩, fun readable => by cases readable.2⟩

/-- In every run, a readable event that does not overtake a fallback callback with work to
do calls `tcp_alloc_cb1` with its three `CHECK`s satisfied. -/
theorem alloc_checks_hold (labels : List Label) (connection : Connected)
    (run : replay step {} labels = some connection) (readable : Readable connection)
    (clean : CleanedUp connection) : AllocChecks connection :=
  (replay_always Settled settled_step settled_new run).allocChecks readable clean

def cancelledHead : List Label := [.issue 4 none, .issue 2 none, .cancel 0]

theorem alloc_checks_hold_cancelled : ∃ connection,
    replay step {} cancelledHead = some connection ∧ connection.asyncPending = true ∧
      AllocChecks connection := by
  have running : (replay step {} cancelledHead).isSome := by decide
  refine ⟨_, (Option.some_get running).symm, by decide +revert, ?_⟩
  exact alloc_checks_hold cancelledHead _ (Option.some_get running).symm
    (by unfold Readable; decide +revert) (by unfold CleanedUp; decide +revert)

/-- The only request is cancelled. Until the callback of `uv_async_send` the socket is still
read, and a readable event finds the queue empty. -/
theorem alloc_checks_overtaken : ¬∀ (labels : List Label) (connection : Connected),
    replay step {} labels = some connection → Readable connection → AllocChecks connection := by
  intro claimed
  have running : (replay step {} [.issue 4 none, .cancel 0]).isSome := by decide
  have empty : ((replay step {} [.issue 4 none, .cancel 0]).get running).queue = [] := by
    decide +revert
  obtain ⟨-, request, others, queued, -⟩ := claimed _ _ (Option.some_get running).symm
    (by unfold Readable; decide +revert)
  rw [empty] at queued
  cases queued

end Cocoflow.DeferredCleanup
