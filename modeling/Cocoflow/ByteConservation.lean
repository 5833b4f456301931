import Mathlib.Data.List.Basic
import Cocoflow.RecvTill

/-!
Where the bytes of a `recv_till` connection are. The completed requests, the request at
the head of the queue and the residual `buf1` hold, in this order, exactly the bytes read so
far. The one transition that can break the order is `recv_till::cancel`: it puts the bytes
of the cancelled request behind a residual that came after them.
-/

namespace Cocoflow.ByteConservation

open LabelledRuns TcpConnection RecvTill

def headData : List Request → List Byte
  | [] => []
  | request :: _ => request.data

def Balanced (connection : Connected) : Prop :=
  connection.completed.flatMap Request.data ++ headData connection.queue ++ connection.buf1 =
    connection.received

/-- Besides the balance, only the head of the queue can hold bytes. -/
structure Conserved (connection : Connected) : Prop where
  balanced : Balanced connection
  behind : ∀ request ∈ connection.queue.tail, request.data = []

/-- A cancelled request holds no bytes, or there is no residual in front of which they
would belong. -/
def OrderlyCancel (connection : Connected) : Label → Prop
  | .cancel id => (connection.queue.find? (·.id = id)).elim True fun request =>
      request.data = [] ∨ connection.buf1 = []
  | _ => True

instance (connection : Connected) : (label : Label) → Decidable (OrderlyCancel connection label)
  | .cancel id =>
      match found : connection.queue.find? (·.id = id) with
      | none => isTrue (by simp [OrderlyCancel, found])
      | some request => decidable_of_iff (request.data = [] ∨ connection.buf1 = [])
          (by simp [OrderlyCancel, found])
  | .issue _ _ | .read _ | .fallback | .back => isTrue trivial

theorem conserved_checkRemaining {connection next : Connected} (conserved : Conserved connection)
    (taken : connection.checkRemaining = some next) : Conserved next := by
  obtain ⟨balanced, behind⟩ := conserved
  unfold Balanced at balanced
  rcases checkRemaining_cases taken with
    ⟨request, others, rest, served, queued, -, remains, rfl⟩ |
    ⟨request, others, rest, waiting, queued, -, remains, rfl⟩ |
    ⟨-, -, rfl⟩ | ⟨-, -, rfl⟩
  · rw [queued] at balanced behind
    have idle : headData others = [] := by
      cases others with
      | nil => rfl
      | cons other more => exact behind other (by simp)
    refine ⟨?_, fun other member => behind other (List.mem_of_mem_tail member)⟩
    simp only [Balanced, List.flatMap_append, List.flatMap_cons, List.flatMap_nil,
      List.append_nil, idle]
    rw [← balanced, List.append_assoc, remains.conserves, headData, List.append_assoc]
  · rw [queued] at balanced behind
    refine ⟨?_, behind⟩
    unfold Balanced headData
    rw [← balanced, List.append_assoc, remains.conserves, headData, List.append_assoc]
  · exact ⟨balanced, behind⟩
  · exact ⟨balanced, behind⟩

theorem conserved_enqueue {connection next : Connected} {request : Request}
    (balanced : connection.completed.flatMap Request.data ++
      headData (connection.queue ++ [request]) ++ connection.buf1 = connection.received)
    (behind : ∀ other ∈ (connection.queue ++ [request]).tail, other.data = [])
    (taken : connection.enqueue request = some next) : Conserved next := by
  rcases enqueue_cases taken with ⟨-, rfl⟩ | ⟨-, rfl⟩ <;> exact ⟨balanced, behind⟩

theorem conserved_issue {connection next : Connected} {capacity : Nat}
    {pattern : Option (List Byte)} (conserved : Conserved connection)
    (taken : step connection (.issue capacity pattern) = some next) : Conserved next := by
  obtain ⟨balanced, behind⟩ := conserved
  unfold Balanced at balanced
  obtain ⟨request, made, ran⟩ := issue_cases taken
  obtain ⟨-, -, rfl⟩ := new_request made
  rcases run_cases ran with
    ⟨rest, served, alone, remains, rfl⟩ | ⟨rest, waiting, alone, remains, waits⟩ | ⟨-, waits⟩
  · dsimp only at alone remains
    rw [alone] at balanced
    refine ⟨?_, by simp [alone]⟩
    simp only [Balanced, List.flatMap_append, List.flatMap_cons, List.flatMap_nil,
      List.append_nil, alone, headData]
    rw [List.append_assoc, remains.conserves, ← balanced]
    simp [headData]
  · dsimp only at alone remains
    rw [alone] at balanced
    refine conserved_enqueue ?_ ?_ waits
    · dsimp only
      rw [alone, List.nil_append, headData, List.append_assoc, remains.conserves, ← balanced]
      simp [headData]
    · simp [alone]
  · refine conserved_enqueue ?_ ?_ waits
    · dsimp only
      rw [← balanced]
      cases connection.queue <;> rfl
    · dsimp only
      cases queued : connection.queue with
      | nil => simp
      | cons head others =>
          rw [queued] at behind
          intro other member
          simp only [List.cons_append, List.tail_cons, List.mem_append, List.mem_singleton]
            at member
          rcases member with old | rfl
          · exact behind other old
          · rfl

theorem conserved_cancel {connection next : Connected} {id : Nat}
    (conserved : Conserved connection) (orderly : OrderlyCancel connection (.cancel id))
    (taken : step connection (.cancel id) = some next) : Conserved next := by
  obtain ⟨balanced, behind⟩ := conserved
  unfold Balanced at balanced
  obtain ⟨request, size1, allocated, found, -, rfl⟩ := cancel_cases taken
  have choice : request.data = [] ∨ connection.buf1 = [] := by
    simpa [OrderlyCancel, found] using orderly
  have member := List.mem_of_find?_eq_some found
  cases queued : connection.queue with
  | nil =>
      rw [queued] at member
      cases member
  | cons head others =>
      rw [queued] at balanced behind found member
      by_cases first : head = request
      · -- The head gives its bytes back; the next request has none.
        subst head
        have idle : headData others = [] := by
          cases others with
          | nil => rfl
          | cons other more => exact behind other (by simp)
        refine ⟨?_, ?_⟩
        · simp only [Balanced, List.erase_cons_head, idle, List.append_nil]
          rw [← balanced, headData]
          rcases choice with none | none <;> simp [none]
        · intro other tail
          simp only [List.erase_cons_head] at tail
          exact behind other (List.mem_of_mem_tail tail)
      · -- A request behind the head holds no bytes.
        have later : request ∈ others :=
          (List.mem_cons.mp member).resolve_left (Ne.symm first)
        have nothing : request.data = [] := behind request later
        have kept : (head :: others).erase request = head :: others.erase request :=
          List.erase_cons_tail (by simpa using first)
        refine ⟨?_, ?_⟩
        · simp only [Balanced, kept, nothing, List.append_nil]
          rw [← balanced]
          rfl
        · intro other tail
          simp only [kept, List.tail_cons] at tail
          exact behind other (List.mem_of_mem_erase tail)

theorem conserved_read {connection next : Connected} {chunk : List Byte}
    (conserved : Conserved connection)
    (taken : step connection (.read chunk) = some next) : Conserved next := by
  obtain ⟨balanced, behind⟩ := conserved
  unfold Balanced at balanced
  obtain ⟨-, -, -, request, others, size1, allocated, queued, outcome⟩ := read_cases taken
  have idle : headData others = [] := by
    rw [queued] at behind
    cases others with
    | nil => rfl
    | cons other more => exact behind other (by simp)
  have later : ∀ other ∈ others.tail, other.data = [] := by
    rw [queued] at behind
    exact fun other member => behind other (List.mem_of_mem_tail member)
  rw [queued] at behind
  rcases outcome with ⟨-, -, rfl⟩ | ⟨-, empty, -, rfl⟩ | ⟨-, empty, -, continues⟩ |
    ⟨rest, served, remains, -, rfl⟩ | ⟨rest, waiting, remains, -, continues⟩
  · exact ⟨balanced, by simpa [queued] using behind⟩
  · rw [queued, headData, empty, List.append_nil] at balanced
    refine ⟨?_, later⟩
    simp [Balanced, idle, empty, ← balanced, List.append_assoc]
  · rw [queued, headData, empty, List.append_nil] at balanced
    refine conserved_checkRemaining ⟨?_, behind⟩ continues
    simp [Balanced, headData, empty, ← balanced, List.append_assoc]
  · rw [queued, headData] at balanced
    refine ⟨?_, later⟩
    simp only [Balanced, List.flatMap_append, List.flatMap_cons, List.flatMap_nil,
      List.append_nil, idle]
    rw [List.append_assoc, remains.conserves, ← balanced]
    simp only [List.append_assoc]
  · rw [queued, headData] at balanced
    refine conserved_checkRemaining ⟨?_, behind⟩ continues
    simp only [Balanced, headData]
    rw [List.append_assoc, remains.conserves, ← balanced]
    simp only [List.append_assoc]

theorem conserved_step (connection : Connected) (label : Label) (next : Connected)
    (conserved : Conserved connection) (orderly : OrderlyCancel connection label)
    (taken : step connection label = some next) : Conserved next := by
  cases label with
  | issue capacity pattern => exact conserved_issue conserved taken
  | cancel id => exact conserved_cancel conserved orderly taken
  | read chunk => exact conserved_read conserved taken
  | fallback =>
      obtain ⟨asyncPending, continues⟩ := resume_cases (Or.inl rfl) taken
      refine conserved_checkRemaining ?_ continues
      exact ⟨conserved.balanced, conserved.behind⟩
  | back =>
      obtain ⟨asyncPending, continues⟩ := resume_cases (Or.inr rfl) taken
      refine conserved_checkRemaining ?_ continues
      exact ⟨conserved.balanced, conserved.behind⟩

theorem conserved_new : Conserved {} := ⟨rfl, by simp⟩

/-- No byte is lost, duplicated or reordered in any run whose cancellations are orderly. -/
theorem bytes_conserved (labels : List Label) (connection : Connected)
    (orderly : Along step OrderlyCancel {} labels)
    (run : replay step {} labels = some connection) : Balanced connection :=
  (replay_invariant Conserved conserved_step conserved_new orderly run).balanced

def orderlyRun : List Label :=
  [.issue 4 none, .read [7, 13], .cancel 0, .fallback, .issue 8 (some [13, 10]), .read [10]]

theorem bytes_conserved_orderly : ∃ connection, replay step {} orderlyRun = some connection ∧
    connection.completed.length = 1 ∧ Balanced connection := by
  have running : (replay step {} orderlyRun).isSome := by decide
  refine ⟨_, (Option.some_get running).symm, by decide +revert, ?_⟩
  exact bytes_conserved orderlyRun _ (by decide) (Option.some_get running).symm

/-- A pattern request has copied `x` and left `a`, which may begin its pattern `ab`, in
`buf1`. Cancelling it puts `x` behind `a`. -/
theorem bytes_reordered : ¬∀ (labels : List Label) (connection : Connected),
    replay step {} labels = some connection → Balanced connection := by
  intro claimed
  have running : (replay step {}
      [.issue 8 (some [97, 98]), .read [120, 97], .cancel 0]).isSome := by decide
  exact absurd (claimed _ _ (Option.some_get running).symm)
    (by unfold Balanced; decide +revert)

end Cocoflow.ByteConservation
