import Mathlib.Data.List.Basic
import Mathlib.Data.List.Infix
import Cocoflow.LabelledRuns
import Cocoflow.TcpConnection
import Cocoflow.FirstMatch
import Cocoflow.RecvTill
import Cocoflow.ByteConservation
import Cocoflow.OneShotReceive

/-!
What the success of a pattern request means. Cancellations change which bytes a request is
offered, but never the search of a waiting request: in every run a request that completes has
the one-shot result on the bytes offered to it. With a full buffer that is no match.
-/

namespace Cocoflow.PatternCompletion

open LabelledRuns FirstMatch TcpConnection RecvTill ByteConservation OneShotReceive

/-- The requests of a queue whose head alone has received bytes. -/
structure Pending (connection : Connected) : Prop where
  behind : ∀ request ∈ connection.queue.tail, request.data = []
  searching : ∀ request ∈ connection.queue, Searching request connection.buf1

/-- The bytes that a step has for the request it serves. -/
def offered (connection : Connected) : Label → List Byte
  | .issue _ _ => connection.buf1
  | .read chunk => headData connection.queue ++ (connection.buf1 ++ chunk)
  | .fallback | .back => headData connection.queue ++ connection.buf1
  | .cancel _ => []

section Pending

variable {connection next : Connected} {request : Request} {others : List Request}

theorem pending_shortened (pending : Pending connection)
    (queued : connection.queue = request :: others) (rest : List Byte) :
    (∀ other ∈ others.tail, other.data = []) ∧ ∀ other ∈ others, Searching other rest := by
  constructor
  · intro other member
    exact pending.behind other (by simpa [queued] using List.mem_of_mem_tail member)
  · intro other member
    have idle := pending.behind other (by simpa [queued] using member)
    exact searching_idle rest (pending.searching other (by simp [queued, member])) idle

theorem pending_head (pending : Pending connection)
    (queued : connection.queue = request :: others) {head : Request} {rest : List Byte}
    (searching : Searching head rest) :
    (∀ other ∈ (head :: others).tail, other.data = []) ∧
      ∀ other ∈ head :: others, Searching other rest := by
  constructor
  · intro other member
    exact pending.behind other (by simpa [queued] using member)
  · intro other member
    rcases List.mem_cons.mp member with rfl | later
    · exact searching
    · exact (pending_shortened pending queued rest).2 other later

theorem pending_checkRemaining (pending : Pending connection)
    (taken : connection.checkRemaining = some next) : Pending next := by
  rcases checkRemaining_cases taken with
    ⟨request, others, rest, served, queued, -, remains, rfl⟩ |
    ⟨request, others, rest, waiting, queued, -, remains, rfl⟩ |
    ⟨-, -, rfl⟩ | ⟨-, -, rfl⟩
  · obtain ⟨behind, searching⟩ := pending_shortened pending queued rest
    exact ⟨behind, searching⟩
  · have own := waiting_searching (pending.searching request (by simp [queued])) remains
    obtain ⟨behind, searching⟩ := pending_head pending queued own
    exact ⟨behind, searching⟩
  · exact ⟨pending.behind, pending.searching⟩
  · exact ⟨pending.behind, pending.searching⟩

theorem pending_enqueue (taken : connection.enqueue request = some next)
    (behind : ∀ other ∈ (connection.queue ++ [request]).tail, other.data = [])
    (searching : ∀ other ∈ connection.queue ++ [request], Searching other connection.buf1) :
    Pending next := by
  rcases enqueue_cases taken with ⟨-, rfl⟩ | ⟨-, rfl⟩
  · exact ⟨behind, searching⟩
  · exact ⟨behind, searching⟩

theorem pending_issue {capacity : Nat} {pattern : Option (List Byte)}
    (pending : Pending connection) (taken : step connection (.issue capacity pattern) = some next) :
    Pending next := by
  obtain ⟨request, made, ran⟩ := issue_cases taken
  obtain ⟨searching, nothing⟩ := new_searching made connection.buf1
  rcases run_cases ran with
    ⟨rest, served, alone, remains, rfl⟩ | ⟨rest, waiting, alone, remains, waits⟩ | ⟨-, waits⟩
  · dsimp only at alone
    exact ⟨by simp [alone], by simp [alone]⟩
  · dsimp only at alone remains
    refine pending_enqueue waits (by simp [alone]) ?_
    simpa [alone] using waiting_searching searching remains
  · refine pending_enqueue waits ?_ ?_
    · intro other member
      cases queued : connection.queue with
      | nil => simp [queued] at member
      | cons head others =>
          simp only [queued, List.cons_append, List.tail_cons, List.mem_append,
            List.mem_singleton] at member
          rcases member with old | rfl
          · exact pending.behind other (by simpa [queued] using old)
          · exact nothing
    · intro other member
      rcases List.mem_append.mp member with old | new
      · exact pending.searching other old
      · rw [List.mem_singleton.mp new]
        exact searching

theorem pending_cancel {id : Nat} (pending : Pending connection)
    (taken : step connection (.cancel id) = some next) : Pending next := by
  obtain ⟨request, size1, allocated, found, -, rfl⟩ := cancel_cases taken
  constructor
  · intro other member
    dsimp only at member
    cases queued : connection.queue with
    | nil => simp [queued] at member
    | cons head others =>
        rw [queued, List.erase_cons] at member
        split at member
        · exact pending.behind other (by simpa [queued] using List.mem_of_mem_tail member)
        · exact pending.behind other
            (by simpa [queued] using List.mem_of_mem_erase member)
  · intro other member
    exact searching_append request.data (pending.searching other (List.mem_of_mem_erase member))

theorem searching_partly {chunk : List Byte} (searching : Searching request connection.buf1)
    (kind : request.pattern = none) (partly : chunk.length < request.left) :
    Searching { request with
      data := request.data ++ chunk, left := request.left - chunk.length } connection.buf1 := by
  refine ⟨?_, Nat.sub_pos_of_lt partly, searching.length, searching.pattern, ?_⟩
  · have extent := searching.extent
    dsimp only
    rw [List.length_append]
    omega
  · intro bytes pattern
    rw [show request.pattern = some bytes from pattern] at kind
    cases kind

theorem pending_read {chunk : List Byte} (pending : Pending connection)
    (taken : step connection (.read chunk) = some next) : Pending next := by
  obtain ⟨-, -, -, request, others, size1, allocated, queued, outcome⟩ := read_cases taken
  have searching := pending.searching request (by simp [queued])
  rcases outcome with ⟨-, -, rfl⟩ | ⟨-, -, -, rfl⟩ | ⟨kind, -, partly, continues⟩ |
    ⟨rest, done, -, -, rfl⟩ | ⟨rest, waiting, remains, -, continues⟩
  · exact ⟨pending.behind, pending.searching⟩
  · obtain ⟨behind, later⟩ := pending_shortened pending queued connection.buf1
    exact ⟨behind, later⟩
  · have own := searching_partly searching kind partly
    obtain ⟨behind, later⟩ := pending_head pending queued own
    exact pending_checkRemaining ⟨behind, later⟩ continues
  · obtain ⟨behind, later⟩ := pending_shortened pending queued rest
    exact ⟨behind, later⟩
  · have own := waiting_searching (searching_append chunk searching) remains
    obtain ⟨behind, later⟩ := pending_head pending queued own
    exact pending_checkRemaining ⟨behind, later⟩ continues

theorem pending_step (connection : Connected) (label : Label) (next : Connected)
    (pending : Pending connection) (taken : step connection label = some next) :
    Pending next := by
  cases label with
  | issue capacity pattern => exact pending_issue pending taken
  | cancel id => exact pending_cancel pending taken
  | read chunk => exact pending_read pending taken
  | fallback =>
      obtain ⟨asyncPending, continues⟩ := resume_cases (Or.inl rfl) taken
      refine pending_checkRemaining ?_ continues
      exact ⟨pending.behind, pending.searching⟩
  | back =>
      obtain ⟨asyncPending, continues⟩ := resume_cases (Or.inr rfl) taken
      refine pending_checkRemaining ?_ continues
      exact ⟨pending.behind, pending.searching⟩

theorem pending_new : Pending {} := ⟨by simp, by simp⟩

end Pending

def Shot (request : Request) (stream : List Byte) : Prop :=
  oneShot request.capacity request.pattern stream = some request.data ∧
    request.len = request.data.length

section Served

variable {connection next : Connected} {request served : Request}

theorem shot_remains {buf1 rest : List Byte} (searching : Searching request buf1)
    (remains : Remains buf1 request true rest served) : Shot served (request.data ++ buf1) := by
  obtain ⟨shot, length⟩ := served_oneShot searching remains
  have capacity : served.capacity = request.capacity := congrArg (·.2.1) (remains_key remains)
  refine ⟨?_, length⟩
  rw [capacity, remains.pattern]
  exact shot

theorem last_completed {completed : List Request} {other : Request}
    (same : completed ++ [other] = completed ++ [served]) : other = served := by
  simpa using same

theorem none_completed {completed : List Request} (same : completed = completed ++ [served]) :
    False := by
  simp at same

theorem shot_checkRemaining (connection : Connected) (pending : Pending connection)
    (taken : connection.checkRemaining = some next)
    (completes : next.completed = connection.completed ++ [served]) :
    Shot served (headData connection.queue ++ connection.buf1) := by
  rcases checkRemaining_cases taken with
    ⟨request, others, rest, done, queued, -, remains, rfl⟩ |
    ⟨request, others, rest, waiting, queued, -, remains, rfl⟩ |
    ⟨-, -, rfl⟩ | ⟨-, -, rfl⟩
  · obtain rfl := last_completed completes
    rw [queued]
    exact shot_remains (pending.searching request (by simp [queued])) remains
  · exact (none_completed completes).elim
  · exact (none_completed completes).elim
  · exact (none_completed completes).elim

theorem shot_enqueue (taken : connection.enqueue request = some next)
    (completes : next.completed = connection.completed ++ [served]) : False := by
  rcases enqueue_cases taken with ⟨-, rfl⟩ | ⟨-, rfl⟩
  · exact none_completed completes
  · exact none_completed completes

theorem shot_read {chunk : List Byte} (pending : Pending connection)
    (taken : step connection (.read chunk) = some next)
    (completes : next.completed = connection.completed ++ [served]) :
    Shot served (headData connection.queue ++ (connection.buf1 ++ chunk)) := by
  obtain ⟨-, -, -, request, others, size1, allocated, queued, outcome⟩ := read_cases taken
  have searching := pending.searching request (by simp [queued])
  rw [queued, headData]
  rcases outcome with ⟨-, -, rfl⟩ | ⟨kind, empty, full, rfl⟩ | ⟨kind, empty, partly, continues⟩ |
    ⟨rest, done, remains, -, rfl⟩ | ⟨rest, waiting, remains, -, continues⟩
  · exact (none_completed completes).elim
  · -- The chunk fills the request up.
    obtain rfl := last_completed completes
    have arrived : (request.data ++ chunk).length = request.capacity := by
      rw [List.length_append, full]
      exact searching.extent
    refine ⟨?_, searching.length.trans arrived.symm⟩
    dsimp only
    rw [kind, empty, List.nil_append, oneShot_fill (Nat.le_of_eq arrived.symm), ← arrived,
      List.take_length]
  · -- The chunk goes into the request, and there is no residual to complete it.
    have own := searching_partly searching kind partly
    obtain ⟨behind, later⟩ := pending_head pending queued own
    have shot := shot_checkRemaining _ ⟨behind, later⟩ continues completes
    simpa [headData, empty] using shot
  · obtain rfl := last_completed completes
    exact shot_remains (searching_append chunk searching) remains
  · have own := waiting_searching (searching_append chunk searching) remains
    obtain ⟨behind, later⟩ := pending_head pending queued own
    have shot := shot_checkRemaining _ ⟨behind, later⟩ continues completes
    rw [headData, remains.conserves] at shot
    exact shot

/-- In every state that a run can reach, a step that completes a request gives it the one-shot
result on what it was offered. -/
theorem shot_step {label : Label} (pending : Pending connection)
    (taken : step connection label = some next)
    (completes : next.completed = connection.completed ++ [served]) :
    Shot served (offered connection label) := by
  cases label with
  | issue capacity pattern =>
      obtain ⟨request, made, ran⟩ := issue_cases taken
      obtain ⟨searching, nothing⟩ := new_searching made connection.buf1
      rcases run_cases ran with
        ⟨rest, done, alone, remains, rfl⟩ | ⟨rest, waiting, alone, remains, waits⟩ | ⟨-, waits⟩
      · obtain rfl := last_completed completes
        have shot := shot_remains searching remains
        rwa [nothing, List.nil_append] at shot
      · exact (shot_enqueue waits completes).elim
      · exact (shot_enqueue waits completes).elim
  | cancel id =>
      obtain ⟨request, size1, allocated, found, -, rfl⟩ := cancel_cases taken
      exact (none_completed completes).elim
  | read chunk => exact shot_read pending taken completes
  | fallback =>
      obtain ⟨asyncPending, continues⟩ := resume_cases (Or.inl rfl) taken
      refine shot_checkRemaining { connection with asyncPending := asyncPending } ?_ continues
        completes
      exact ⟨pending.behind, pending.searching⟩
  | back =>
      obtain ⟨asyncPending, continues⟩ := resume_cases (Or.inr rfl) taken
      refine shot_checkRemaining { connection with asyncPending := asyncPending } ?_ continues
        completes
      exact ⟨pending.behind, pending.searching⟩

end Served

theorem infix_iff {pattern stream : List Byte} :
    pattern <:+: stream ↔ ∃ length, firstEnd pattern stream = some length := by
  constructor
  · rintro ⟨before, after, rfl⟩
    cases found : firstEnd pattern (before ++ pattern ++ after) with
    | some length => exact ⟨length, rfl⟩
    | none =>
        refine absurd ?_ (firstEnd_none.mp found before.length (by simp))
        rw [List.append_assoc]
        simp [Occurs]
  · rintro ⟨length, found⟩
    obtain ⟨inside, suffix, -⟩ := firstEnd_shortest.mp found
    exact suffix.isInfix.trans (List.take_prefix length stream).isInfix

theorem shot_suffix {request : Request} {stream pattern : List Byte}
    (kind : request.pattern = some pattern) (shot : Shot request stream) :
    pattern <:+ request.data.take request.len ↔ pattern <:+: stream.take request.capacity := by
  obtain ⟨shot, length⟩ := shot
  rw [length, List.take_length]
  rw [kind] at shot
  unfold oneShot at shot
  rw [Option.bind_some] at shot
  split at shot
  · rename_i length found
    obtain ⟨inside, suffix, -⟩ := firstEnd_shortest.mp found
    rw [List.take_take, Nat.min_eq_left (firstEnd_take.mp found).1] at suffix
    rw [← Option.some.inj shot]
    exact iff_of_true suffix (infix_iff.mpr ⟨length, found⟩)
  · rename_i absent
    split at shot
    · rw [← Option.some.inj shot]
      constructor
      · exact List.IsSuffix.isInfix
      · intro inside
        obtain ⟨length, found⟩ := infix_iff.mp inside
        rw [absent] at found
        cases found
    · cases shot

/-- A pattern request succeeds with a buffer that ends with its pattern exactly when the
pattern occurs in the first bytes offered, as many as the buffer holds. -/
theorem pattern_success_iff (labels : List Label) (connection : Connected)
    (run : replay step {} labels = some connection) (label : Label) (next : Connected)
    (taken : step connection label = some next) (served : Request)
    (completes : next.completed = connection.completed ++ [served]) (pattern : List Byte)
    (kind : served.pattern = some pattern) :
    pattern <:+ served.data.take served.len ↔
      pattern <:+: (offered connection label).take served.capacity := by
  have pending := replay_always Pending pending_step pending_new run
  exact shot_suffix kind (shot_step pending taken completes)

def awaiting (capacity : Nat) : Connected :=
  { receiving := .recvTill
    queue := [⟨0, capacity, some [13, 10], [], capacity, capacity⟩]
    asyncCancel := true
    issued := [⟨0, capacity, some [13, 10], [], capacity, capacity⟩] }

def lineRead (capacity : Nat) (data residual received : List Byte) : Connected :=
  { awaiting capacity with
    queue := [], buf1 := residual, size1 := 1024, allocated := true, standing := true
    received := received
    completed := [⟨0, capacity, some [13, 10], data, capacity, data.length⟩] }

theorem pattern_success_line :
    step (awaiting 4) (.read [97, 13, 10]) = some (lineRead 4 [97, 13, 10] [] [97, 13, 10]) ∧
      ([13, 10] : List Byte) <:+ [97, 13, 10] := by
  have taken : step (awaiting 4) (.read [97, 13, 10]) =
      some (lineRead 4 [97, 13, 10] [] [97, 13, 10]) := by decide
  have success := pattern_success_iff [.issue 4 (some [13, 10])] (awaiting 4) (by decide)
    (.read [97, 13, 10]) _ taken ⟨0, 4, some [13, 10], [97, 13, 10], 4, 3⟩ rfl [13, 10] rfl
  exact ⟨taken, success.mpr (by decide)⟩

/-- The buffer is full before the line ends. -/
theorem pattern_missing : ¬∀ (labels : List Label) (connection : Connected) (label : Label)
    (next : Connected) (served : Request) (pattern : List Byte),
    replay step {} labels = some connection → step connection label = some next →
    next.completed = connection.completed ++ [served] → served.pattern = some pattern →
    pattern <:+ served.data.take served.len := by
  intro claimed
  have suffix := claimed [.issue 2 (some [13, 10])] (awaiting 2) (.read [97, 98, 99])
    (lineRead 2 [97, 98] [99] [97, 98, 99]) ⟨0, 2, some [13, 10], [97, 98], 2, 2⟩ [13, 10]
    (by decide) (by decide) rfl rfl
  exact absurd suffix (by decide)

end Cocoflow.PatternCompletion
