import Mathlib.Data.List.Basic
import Cocoflow.FirstMatch
import Cocoflow.RecvTill
import Cocoflow.ByteConservation

/-!
What `recv_till` is for: `oneShot` reads the result of a request off the whole remaining
stream, and `serve` does so for one request after the other. Without cancellations the
connection computes exactly this, however the stream is split into reads and whichever of
the three code paths serves a request.
-/

namespace Cocoflow.OneShotReceive

open LabelledRuns FirstMatch TcpConnection RecvTill ByteConservation

/-- The bytes of a request, read off the stream that remains for it. A fill request takes
its capacity; a pattern request the shortest prefix that ends with its pattern, or its
capacity when no such prefix fits. -/
def oneShot (capacity : Nat) (pattern : Option (List Byte)) (stream : List Byte) :
    Option (List Byte) :=
  match pattern.bind fun bytes => firstEnd bytes (stream.take capacity) with
  | some length => some (stream.take length)
  | none => if capacity ≤ stream.length then some (stream.take capacity) else none

def serve : List Request → List Byte → List (List Byte × Nat)
  | [], _ => []
  | request :: others, stream =>
      match oneShot request.capacity request.pattern stream with
      | none => []
      | some bytes => (bytes, bytes.length) :: serve others (stream.drop bytes.length)

theorem oneShot_fill {capacity : Nat} {stream : List Byte} (enough : capacity ≤ stream.length) :
    oneShot capacity none stream = some (stream.take capacity) := by
  simp [oneShot, enough]

theorem oneShot_found {capacity length : Nat} {pattern stream : List Byte}
    (found : firstEnd pattern stream = some length) (fits : length ≤ capacity) :
    oneShot capacity (some pattern) stream = some (stream.take length) := by
  have bounded : firstEnd pattern (stream.take capacity) = some length :=
    firstEnd_take.mpr ⟨fits, found⟩
  simp [oneShot, bounded]

theorem oneShot_full {capacity : Nat} {pattern stream : List Byte}
    (enough : capacity ≤ stream.length)
    (absent : ∀ start, start + pattern.length < capacity → ¬Occurs pattern stream start) :
    oneShot capacity (some pattern) stream = some (stream.take capacity) := by
  unfold oneShot
  simp only [Option.bind_some]
  cases found : firstEnd pattern (stream.take capacity) with
  | none => simp [enough]
  | some length =>
      obtain ⟨start, ends, inside, occurs, -⟩ := firstEnd_some.mp found
      rw [List.length_take] at inside
      have last : length = capacity := by
        by_contra different
        exact absent start (by omega) ((occurs_take (by omega)).mp occurs)
      rw [last]

theorem oneShot_length {capacity : Nat} {pattern : Option (List Byte)}
    {stream bytes : List Byte} (shot : oneShot capacity pattern stream = some bytes) :
    bytes = stream.take bytes.length := by
  unfold oneShot at shot
  split at shot
  · cases shot
    rw [List.length_take, List.take_eq_take_iff]
    omega
  · split at shot
    · cases shot
      rw [List.length_take, List.take_eq_take_iff]
      omega
    · cases shot

theorem oneShot_append {capacity : Nat} {pattern : Option (List Byte)}
    {stream bytes : List Byte} (more : List Byte)
    (shot : oneShot capacity pattern stream = some bytes) :
    oneShot capacity pattern (stream ++ more) = some bytes := by
  unfold oneShot at shot
  split at shot
  · rename_i length found
    cases shot
    obtain ⟨searched, rfl, bounded⟩ := Option.bind_eq_some_iff.mp found
    obtain ⟨fits, first⟩ := firstEnd_take.mp bounded
    obtain ⟨start, ends, inside, -, -⟩ := firstEnd_some.mp first
    rw [oneShot_found (firstEnd_append more first) fits, List.take_append_of_le_length inside]
  · rename_i absent
    split at shot
    · rename_i enough
      cases shot
      have same : (stream ++ more).take capacity = stream.take capacity :=
        List.take_append_of_le_length enough
      have longer : capacity ≤ (stream ++ more).length := by
        rw [List.length_append]
        omega
      simp only [oneShot, same, absent, longer, ↓reduceIte]
    · cases shot

/-- A waiting request. For a pattern request the search is open: no match starts in the bytes it already
took, and their comparisons used only bytes that have arrived. -/
structure Searching (request : Request) (buf1 : List Byte) : Prop where
  extent : request.data.length + request.left = request.capacity
  room : 0 < request.left
  length : request.len = request.capacity
  pattern : request.pattern ≠ some []
  passed : ∀ bytes, request.pattern = some bytes → ∀ start, start < request.data.length →
    start + bytes.length ≤ (request.data ++ buf1).length ∧
      ¬Occurs bytes (request.data ++ buf1) start

theorem searching_append {request : Request} {buf1 : List Byte} (chunk : List Byte)
    (searching : Searching request buf1) : Searching request (buf1 ++ chunk) := by
  refine { searching with passed := ?_ }
  intro bytes kind start inside
  obtain ⟨arrived, absent⟩ := searching.passed bytes kind start inside
  rw [← List.append_assoc, List.length_append]
  exact ⟨by omega, fun occurs => absent ((occurs_append chunk arrived).mp occurs)⟩

theorem bufbuf_firstEnd {buf1 pattern : List Byte} (nonempty : pattern ≠ []) :
    bufbuf buf1 pattern = firstEnd pattern buf1 := by
  have positive := List.length_pos_iff.mpr nonempty
  unfold bufbuf
  split
  · rename_i short
    have less : buf1.length < pattern.length := by
      rcases short with empty | less
      · rw [empty]
        exact positive
      · exact less
    refine (firstEnd_none.mpr fun start inside => ?_).symm
    omega
  · rename_i long
    have bound : buf1.length - pattern.length + 1 = buf1.length + 1 - pattern.length := by
      omega
    rw [bound]
    rfl

theorem absent_before {request : Request} {buf1 bytes : List Byte} {limit : Nat}
    (searching : Searching request buf1) (kind : request.pattern = some bytes)
    (absent : ∀ start, start < limit → ¬Occurs bytes buf1 start) (start : Nat)
    (before : start < request.data.length + limit) :
    ¬Occurs bytes (request.data ++ buf1) start := by
  by_cases inside : start < request.data.length
  · exact (searching.passed bytes kind start inside).2
  · obtain ⟨later, rfl⟩ := Nat.exists_eq_add_of_le (Nat.le_of_not_lt inside)
    rw [occurs_shift]
    exact absent later (by omega)

theorem full_take {request : Request} {buf1 : List Byte} (searching : Searching request buf1) :
    (request.data ++ buf1).take request.capacity = request.data ++ buf1.take request.left := by
  rw [← searching.extent, List.take_length_add_append]

theorem full_oneShot {request : Request} {buf1 bytes : List Byte} (limit : Nat)
    (searching : Searching request buf1) (kind : request.pattern = some bytes)
    (absent : ∀ start, start < limit → ¬Occurs bytes buf1 start)
    (near : request.left ≤ limit + bytes.length) (enough : request.left ≤ buf1.length) :
    oneShot request.capacity request.pattern (request.data ++ buf1) =
        some (request.data ++ buf1.take request.left) ∧
      request.len = (request.data ++ buf1.take request.left).length := by
  have extent := searching.extent
  have arrived : request.capacity ≤ (request.data ++ buf1).length := by
    rw [List.length_append]
    omega
  constructor
  · rw [kind, ← full_take searching]
    refine oneShot_full arrived fun start before => ?_
    exact absent_before searching kind absent start (by omega)
  · rw [← full_take searching, List.length_take, Nat.min_eq_left arrived, searching.length]

/-- A request that `remaining` completes has the one-shot result. -/
theorem served_oneShot {request served : Request} {buf1 rest : List Byte}
    (searching : Searching request buf1)
    (remains : Remains buf1 request true rest served) :
    oneShot request.capacity request.pattern (request.data ++ buf1) = some served.data ∧
      served.len = served.data.length := by
  have extent := searching.extent
  cases remains with
  | fill kind enough =>
      have arrived : request.capacity ≤ (request.data ++ buf1).length := by
        rw [List.length_append]
        omega
      dsimp only
      rw [kind, oneShot_fill arrived, full_take searching]
      refine ⟨rfl, ?_⟩
      rw [← full_take searching, List.length_take, Nat.min_eq_left arrived, searching.length]
  | found bytes kind copy long hit fits =>
      have proper : bytes ≠ [] := fun empty => searching.pattern (by rw [kind, empty])
      rw [bufbuf_firstEnd proper] at hit
      obtain ⟨start, rfl, inside, occurs, first⟩ := firstEnd_some.mp hit
      have shifted : firstEnd bytes (request.data ++ buf1) =
          some (request.data.length + (start + bytes.length)) := by
        refine firstEnd_some.mpr ⟨request.data.length + start, by omega, ?_, ?_, ?_⟩
        · rw [List.length_append]
          omega
        · rwa [occurs_shift]
        · exact absent_before searching kind first
      dsimp only
      rw [kind, oneShot_found shifted (by omega), List.take_length_add_append]
      refine ⟨rfl, ?_⟩
      rw [List.length_append, List.length_take_of_le inside]
  | foundFull bytes kind copy long hit full =>
      have proper : bytes ≠ [] := fun empty => searching.pattern (by rw [kind, empty])
      rw [bufbuf_firstEnd proper] at hit
      obtain ⟨start, rfl, inside, -, first⟩ := firstEnd_some.mp hit
      exact full_oneShot start searching kind first full (by omega)
  | movedFull bytes kind long miss full =>
      have proper : bytes ≠ [] := fun empty => searching.pattern (by rw [kind, empty])
      have positive := List.length_pos_iff.mpr proper
      rw [bufbuf_firstEnd proper, firstEnd_none] at miss
      refine full_oneShot (buf1.length - bytes.length + 1) searching kind ?_ ?_ ?_
      · exact fun start before => miss start (by omega)
      · omega
      · omega

theorem waiting_searching {request waiting : Request} {buf1 rest : List Byte}
    (searching : Searching request buf1)
    (remains : Remains buf1 request false rest waiting) : Searching waiting rest := by
  have extent := searching.extent
  cases remains with
  | drained kind short =>
      refine ⟨?_, Nat.sub_pos_of_lt short, searching.length, searching.pattern, ?_⟩
      · dsimp only
        rw [List.length_append]
        omega
      · intro bytes other
        rw [kind] at other
        cases other
  | unread bytes kind short => exact searching
  | moved bytes kind long miss room =>
      have proper : bytes ≠ [] := fun empty => searching.pattern (by rw [kind, empty])
      have positive := List.length_pos_iff.mpr proper
      rw [bufbuf_firstEnd proper, firstEnd_none] at miss
      have taken : (buf1.take (buf1.length - bytes.length + 1)).length =
          buf1.length - bytes.length + 1 := List.length_take_of_le (by omega)
      refine ⟨?_, Nat.sub_pos_of_lt room, searching.length, searching.pattern, ?_⟩
      · dsimp only
        rw [List.length_append, taken]
        omega
      · intro other same start before
        dsimp only at same before
        obtain rfl : bytes = other := Option.some.inj (kind.symm.trans same)
        rw [List.length_append, taken] at before
        dsimp only
        rw [List.append_assoc, List.take_append_drop, List.length_append]
        refine ⟨by omega, ?_⟩
        exact absent_before searching kind (fun later inside => miss later (by omega))
          start before

def key (request : Request) : Nat × Nat × Option (List Byte) :=
  (request.id, request.capacity, request.pattern)

theorem remains_key {request served : Request} {buf1 rest : List Byte} {finished : Bool}
    (remains : Remains buf1 request finished rest served) : key served = key request := by
  cases remains <;> rfl

/-- Every request has the one-shot result on what the earlier ones left of the stream. -/
def ServedFrom : List Request → List Byte → Prop
  | [], _ => True
  | request :: others, stream =>
      oneShot request.capacity request.pattern stream = some request.data ∧
        request.len = request.data.length ∧
        ServedFrom others (stream.drop request.data.length)

theorem servedFrom_append {requests : List Request} {stream : List Byte} (more : List Byte)
    (served : ServedFrom requests stream) : ServedFrom requests (stream ++ more) := by
  induction requests generalizing stream with
  | nil => trivial
  | cons request others ih =>
      obtain ⟨shot, length, later⟩ := served
      refine ⟨oneShot_append more shot, length, ?_⟩
      have inside : request.data.length ≤ stream.length := by
        rw [oneShot_length shot, List.length_take]
        omega
      rw [List.drop_append_of_le_length inside]
      exact ih later

theorem servedFrom_snoc {requests : List Request} {request : Request}
    {stream remaining : List Byte} (served : ServedFrom requests stream)
    (split : requests.flatMap Request.data ++ remaining = stream)
    (shot : oneShot request.capacity request.pattern remaining = some request.data)
    (length : request.len = request.data.length) :
    ServedFrom (requests ++ [request]) stream := by
  induction requests generalizing stream with
  | nil =>
      subst split
      exact ⟨shot, length, trivial⟩
  | cons first others ih =>
      obtain ⟨firstShot, firstLength, later⟩ := served
      refine ⟨firstShot, firstLength, ih later ?_⟩
      rw [← split, List.flatMap_cons, List.append_assoc, List.drop_left]

theorem servedFrom_serve {requests others issued : List Request} {stream : List Byte}
    (served : ServedFrom requests stream)
    (keys : (requests ++ others).map key = issued.map key) :
    requests.map (fun request => (request.data, request.len)) <+: serve issued stream := by
  induction requests generalizing issued stream with
  | nil => exact List.nil_prefix
  | cons request more ih =>
      cases issued with
      | nil => simp at keys
      | cons first rest =>
          obtain ⟨shot, length, later⟩ := served
          simp only [List.cons_append, List.map_cons, List.cons.injEq] at keys
          obtain ⟨same, keys⟩ := keys
          have capacity : request.capacity = first.capacity := congrArg (·.2.1) same
          have pattern : request.pattern = first.pattern := congrArg (·.2.2) same
          rw [capacity, pattern] at shot
          simp only [serve, shot, List.map_cons, length]
          exact List.cons_prefix_cons.mpr ⟨rfl, ih later keys⟩

/-- The invariant of a connection without cancellations. -/
structure InOrder (connection : Connected) : Prop where
  conserved : Conserved connection
  keys : (connection.completed ++ connection.queue).map key = connection.issued.map key
  served : ServedFrom connection.completed connection.received
  searching : ∀ request ∈ connection.queue, Searching request connection.buf1

theorem searching_idle {request : Request} {buf1 : List Byte} (rest : List Byte)
    (searching : Searching request buf1) (idle : request.data = []) :
    Searching request rest := by
  refine { searching with passed := ?_ }
  intro bytes _ start inside
  rw [idle] at inside
  cases inside

theorem others_searching {connection : Connected} {request : Request} {others : List Request}
    (inOrder : InOrder connection) (queued : connection.queue = request :: others)
    (rest : List Byte) : ∀ other ∈ others, Searching other rest := by
  intro other member
  have idle : other.data = [] := inOrder.conserved.behind other (by simpa [queued] using member)
  exact searching_idle rest (inOrder.searching other (by simp [queued, member])) idle

theorem head_balance {connection : Connected} {request : Request} {others : List Request}
    (inOrder : InOrder connection) (queued : connection.queue = request :: others) :
    connection.completed.flatMap Request.data ++ (request.data ++ connection.buf1) =
      connection.received := by
  have balanced := inOrder.conserved.balanced
  unfold ByteConservation.Balanced at balanced
  rwa [queued, headData, List.append_assoc] at balanced

theorem inOrder_checkRemaining {connection next : Connected}
    (taken : connection.checkRemaining = some next) (inOrder : InOrder connection) :
    InOrder next := by
  have conserved := conserved_checkRemaining inOrder.conserved taken
  rcases checkRemaining_cases taken with
    ⟨request, others, rest, served, queued, -, remains, rfl⟩ |
    ⟨request, others, rest, waiting, queued, -, remains, rfl⟩ |
    ⟨-, -, rfl⟩ | ⟨-, -, rfl⟩
  · have searching := inOrder.searching request (by simp [queued])
    obtain ⟨shot, length⟩ := served_oneShot searching remains
    have same := remains_key remains
    have keys := inOrder.keys
    refine ⟨conserved, ?_, ?_, others_searching inOrder queued rest⟩
    · simpa [queued, same] using keys
    · refine servedFrom_snoc inOrder.served (head_balance inOrder queued) ?_ length
      have capacity : served.capacity = request.capacity := congrArg (·.2.1) same
      rw [capacity, remains.pattern]
      exact shot
  · have searching := inOrder.searching request (by simp [queued])
    have same := remains_key remains
    refine ⟨conserved, ?_, inOrder.served, ?_⟩
    · simpa [queued, same] using inOrder.keys
    · intro other member
      rcases List.mem_cons.mp member with rfl | later
      · exact waiting_searching searching remains
      · exact others_searching inOrder queued rest other later
  · exact ⟨conserved, inOrder.keys, inOrder.served, inOrder.searching⟩
  · exact ⟨conserved, inOrder.keys, inOrder.served, inOrder.searching⟩

theorem new_searching {id capacity : Nat} {pattern : Option (List Byte)} {request : Request}
    (made : Request.new id capacity pattern = some request) (buf1 : List Byte) :
    Searching request buf1 ∧ request.data = [] := by
  obtain ⟨positive, proper, rfl⟩ := new_request made
  refine ⟨⟨Nat.zero_add _, positive, rfl, proper, ?_⟩, rfl⟩
  intro bytes _ start inside
  cases inside

theorem enqueue_inOrder {connection next : Connected} {request : Request}
    (taken : connection.enqueue request = some next) (conserved : Conserved next)
    (keys : (connection.completed ++ (connection.queue ++ [request])).map key =
      connection.issued.map key)
    (served : ServedFrom connection.completed connection.received)
    (searching : ∀ other ∈ connection.queue ++ [request], Searching other connection.buf1) :
    InOrder next := by
  rcases enqueue_cases taken with ⟨-, rfl⟩ | ⟨-, rfl⟩ <;>
    exact ⟨conserved, keys, served, searching⟩

theorem inOrder_issue {connection next : Connected} {capacity : Nat}
    {pattern : Option (List Byte)} (inOrder : InOrder connection)
    (taken : step connection (.issue capacity pattern) = some next) : InOrder next := by
  have conserved := conserved_issue inOrder.conserved taken
  have keys := inOrder.keys
  obtain ⟨request, made, ran⟩ := issue_cases taken
  obtain ⟨searching, nothing⟩ := new_searching made connection.buf1
  rcases run_cases ran with
    ⟨rest, served, alone, remains, rfl⟩ | ⟨rest, waiting, alone, remains, waits⟩ | ⟨-, waits⟩
  · dsimp only at alone remains
    have same := remains_key remains
    obtain ⟨shot, length⟩ := served_oneShot searching remains
    have capacity : served.capacity = request.capacity := congrArg (·.2.1) same
    refine ⟨conserved, ?_, ?_, by simp [alone]⟩
    · simpa [alone, same] using keys
    · have balanced := inOrder.conserved.balanced
      unfold ByteConservation.Balanced at balanced
      rw [alone, headData, List.append_nil] at balanced
      refine servedFrom_snoc inOrder.served balanced ?_ length
      rw [capacity, remains.pattern]
      simpa [nothing] using shot
  · dsimp only at alone remains
    have same := remains_key remains
    refine enqueue_inOrder waits conserved ?_ inOrder.served ?_
    · simpa [alone, same] using keys
    · simpa [alone] using waiting_searching searching remains
  · refine enqueue_inOrder waits conserved ?_ inOrder.served ?_
    · simp only [List.map_append, List.map_cons, List.map_nil] at keys ⊢
      rw [← List.append_assoc, keys]
    · intro other member
      rcases List.mem_append.mp member with old | new
      · exact inOrder.searching other old
      · rw [List.mem_singleton.mp new]
        exact searching

theorem inOrder_read {connection next : Connected} {chunk : List Byte}
    (inOrder : InOrder connection)
    (taken : step connection (.read chunk) = some next) : InOrder next := by
  have conserved := conserved_read inOrder.conserved taken
  have keys := inOrder.keys
  obtain ⟨-, -, -, request, others, size1, allocated, queued, outcome⟩ := read_cases taken
  have searching := inOrder.searching request (by simp [queued])
  have balance := head_balance inOrder queued
  have extended : connection.completed.flatMap Request.data ++
      (request.data ++ (connection.buf1 ++ chunk)) = connection.received ++ chunk := by
    rw [← balance]
    simp only [List.append_assoc]
  have served := servedFrom_append chunk inOrder.served
  rcases outcome with ⟨-, -, rfl⟩ | ⟨kind, empty, full, rfl⟩ | ⟨kind, empty, partly, continues⟩ |
    ⟨rest, done, remains, -, rfl⟩ | ⟨rest, waiting, remains, -, continues⟩
  · exact ⟨conserved, keys, inOrder.served, inOrder.searching⟩
  · -- The chunk fills the request up.
    have arrived : (request.data ++ chunk).length = request.capacity := by
      rw [List.length_append, full]
      exact searching.extent
    refine ⟨conserved, ?_, ?_, others_searching inOrder queued _⟩
    · simpa [queued, key] using keys
    · rw [empty, List.nil_append] at extended
      refine servedFrom_snoc served extended ?_ ?_
      · dsimp only
        rw [kind, oneShot_fill (by omega), ← arrived, List.take_length]
      · exact searching.length.trans arrived.symm
  · -- The chunk goes into the request, which still waits.
    refine inOrder_checkRemaining continues ⟨?_, ?_, served, ?_⟩
    · refine ⟨?_, ?_⟩
      · rw [empty, List.nil_append] at extended
        simpa [ByteConservation.Balanced, headData, empty] using extended
      · simpa [queued] using inOrder.conserved.behind
    · simpa [queued, key] using keys
    · intro other member
      rcases List.mem_cons.mp member with rfl | later
      · refine ⟨?_, Nat.sub_pos_of_lt partly, searching.length, searching.pattern, ?_⟩
        · have extent := searching.extent
          dsimp only
          rw [List.length_append]
          omega
        · intro bytes pattern
          dsimp only at pattern
          rw [kind] at pattern
          cases pattern
      · exact others_searching inOrder queued _ other later
  · -- The residual and the chunk serve the request.
    have same := remains_key remains
    obtain ⟨shot, length⟩ := served_oneShot (searching_append chunk searching) remains
    have capacity : done.capacity = request.capacity := congrArg (·.2.1) same
    refine ⟨conserved, ?_, ?_, others_searching inOrder queued rest⟩
    · simpa [queued, same] using keys
    · refine servedFrom_snoc served extended ?_ length
      rw [capacity, remains.pattern]
      exact shot
  · have same := remains_key remains
    refine inOrder_checkRemaining continues ⟨?_, ?_, served, ?_⟩
    · refine ⟨?_, ?_⟩
      · simp only [ByteConservation.Balanced, headData]
        rw [List.append_assoc, remains.conserves]
        exact extended
      · simpa [queued] using inOrder.conserved.behind
    · simpa [queued, same] using keys
    · intro other member
      rcases List.mem_cons.mp member with rfl | later
      · exact waiting_searching (searching_append chunk searching) remains
      · exact others_searching inOrder queued rest other later

def Uncancelled (_ : Connected) (label : Label) : Prop := ∀ id, label ≠ .cancel id

theorem inOrder_step (connection : Connected) (label : Label) (next : Connected)
    (inOrder : InOrder connection) (uncancelled : Uncancelled connection label)
    (taken : step connection label = some next) : InOrder next := by
  cases label with
  | issue capacity pattern => exact inOrder_issue inOrder taken
  | cancel id => exact absurd rfl (uncancelled id)
  | read chunk => exact inOrder_read inOrder taken
  | fallback =>
      obtain ⟨asyncPending, continues⟩ := resume_cases (Or.inl rfl) taken
      refine inOrder_checkRemaining continues ?_
      exact ⟨⟨inOrder.conserved.balanced, inOrder.conserved.behind⟩, inOrder.keys,
        inOrder.served, inOrder.searching⟩
  | back =>
      obtain ⟨asyncPending, continues⟩ := resume_cases (Or.inr rfl) taken
      refine inOrder_checkRemaining continues ?_
      exact ⟨⟨inOrder.conserved.balanced, inOrder.conserved.behind⟩, inOrder.keys,
        inOrder.served, inOrder.searching⟩

theorem inOrder_new : InOrder {} :=
  ⟨conserved_new, rfl, trivial, by simp⟩

structure Delivered (request : Request) (stream : List Byte) : Prop where
  next : request.data <+: stream
  length : request.len = request.data.length
  fill : request.pattern = none → request.data.length = request.capacity
  shortest : ∀ pattern length, request.pattern = some pattern →
    ShortestEnd pattern stream length → length ≤ request.capacity →
      request.data = stream.take length ∧ request.len = length

theorem oneShot_delivered {request : Request} {stream : List Byte}
    (shot : oneShot request.capacity request.pattern stream = some request.data)
    (length : request.len = request.data.length) : Delivered request stream where
  next := by
    rw [oneShot_length shot]
    exact List.take_prefix _ _
  length := length
  fill := by
    intro kind
    rw [kind] at shot
    unfold oneShot at shot
    simp only [Option.bind_none] at shot
    split at shot
    · rename_i enough
      rw [← Option.some.inj shot, List.length_take_of_le enough]
    · cases shot
  shortest := by
    intro pattern extent kind shortest fits
    rw [kind, oneShot_found (firstEnd_shortest.mpr shortest) fits] at shot
    have bytes := (Option.some.inj shot).symm
    refine ⟨bytes, ?_⟩
    rw [length, bytes, List.length_take_of_le shortest.1]

theorem servedFrom_delivered {before after : List Request} {request : Request}
    {stream : List Byte} (served : ServedFrom (before ++ request :: after) stream) :
    Delivered request (stream.drop (before.flatMap Request.data).length) := by
  induction before generalizing stream with
  | nil =>
      obtain ⟨shot, length, -⟩ := served
      exact oneShot_delivered shot length
  | cons first others ih =>
      obtain ⟨-, -, later⟩ := served
      have result := ih later
      rwa [List.drop_drop, ← List.length_append] at result

/-- Requests complete in the order issued, with the results of the one-shot reading of the
peer's stream: each takes the bytes right after those of the previous one, a fill request its
capacity, a pattern request the shortest prefix that ends with its pattern if that fits. The
results are a prefix of `serve issued stream`, in which the split into reads does not
occur. -/
theorem recv_till_one_shot (labels : List Label) (connection : Connected)
    (uncancelled : ∀ id, Label.cancel id ∉ labels)
    (run : replay step {} labels = some connection)
    (stream : List Byte) (read : connection.received <+: stream) :
    connection.completed.map key <+: connection.issued.map key ∧
    connection.completed.map (fun request => (request.data, request.len)) <+:
      serve connection.issued stream ∧
    ∀ before request after, connection.completed = before ++ request :: after →
      Delivered request (stream.drop (before.flatMap Request.data).length) := by
  have along : Along step Uncancelled {} labels := by
    refine along_of_forall labels _ fun label member _ id same => ?_
    exact uncancelled id (same ▸ member)
  have inOrder := replay_invariant InOrder inOrder_step inOrder_new along run
  obtain ⟨more, rfl⟩ := read
  have served := servedFrom_append more inOrder.served
  refine ⟨?_, servedFrom_serve served inOrder.keys, ?_⟩
  · rw [← inOrder.keys, List.map_append]
    exact List.prefix_append _ _
  · intro before request after split
    rw [split] at served
    exact servedFrom_delivered served

/-- The pattern straddles two reads and leaves a byte for the fill request behind it. -/
def straddlingRun : List Label :=
  [.issue 8 (some [13, 10]), .issue 2 none, .read [7, 13], .read [10, 5], .back, .read [6]]

theorem recv_till_one_shot_straddling : ∃ connection,
    replay step {} straddlingRun = some connection ∧
      connection.completed.map (fun request => (request.data, request.len)) =
        [([7, 13, 10], 3), ([5, 6], 2)] ∧
      connection.completed.map (fun request => (request.data, request.len)) <+:
        serve connection.issued [7, 13, 10, 5, 6, 9] := by
  have running : (replay step {} straddlingRun).isSome := by decide
  have whole : ((replay step {} straddlingRun).get running).received <+: [7, 13, 10, 5, 6, 9] := by
    decide +revert
  refine ⟨_, (Option.some_get running).symm, by decide +revert, ?_⟩
  exact (recv_till_one_shot straddlingRun _ (by simp [straddlingRun]) (Option.some_get running).symm
    _ whole).2.1

end Cocoflow.OneShotReceive
