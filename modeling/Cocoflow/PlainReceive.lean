import Mathlib.Data.List.Basic
import Mathlib.Data.List.Range
import Cocoflow.LabelledRuns
import Cocoflow.TcpConnection

/-!
Plain `recv` on a `tcp::connected` without a sequencer (src/tcp.cc). `reading` is what libuv
knows: whether `tcp_alloc_cb0` and `tcp_recv_cb0` may be called. Libuv calls them in pairs, and
no task runs between the two. `tcp_recv_cb0` resumes a task in the middle; until that one
yields, it may issue and cancel requests, and only then the end of the callback looks at the
queue. A failed `CHECK` has no next state. Without read errors `broken` stays false, so it is
left out.
-/

namespace Cocoflow.PlainReceive

open LabelledRuns TcpConnection

/-- A `recv` request: whether `buf` is given, and `len`. -/
structure Recv where
  id : Nat
  buf : Bool
  len : Nat
  deriving DecidableEq

/-- What libuv is doing: nothing, between the two callbacks, or behind `__task_stand`. -/
inductive Phase where
  | idle | allocated | standing
  deriving DecidableEq

structure Completed where
  id : Nat
  len : Nat
  bytes : List Byte
  deriving DecidableEq

structure Connected where
  receiving : Receiving := .ready
  reading : Bool := false
  phase : Phase := .idle
  curAlloc0 : Option Recv := none
  recvQueue0 : List Recv := []
  next : Nat := 0
  cancelled : List Nat := []
  completed : List Completed := []
  deriving DecidableEq

namespace Connected

def readStop (connection : Connected) : Connected :=
  { connection with receiving := .ready, reading := false }

def recvRun (connection : Connected) (buf : Bool) (len : Nat) : Option Connected :=
  if connection.receiving = .recvTill then none
  else
    let started :=
      if connection.receiving = .ready then
        { connection with receiving := .recv, reading := true }
      else connection
    some { started with
      recvQueue0 := started.recvQueue0 ++ [{ id := started.next, buf := buf, len := len }]
      next := started.next + 1 }

def recvCancel (connection : Connected) (id : Nat) : Option Connected :=
  if ∃ request ∈ connection.recvQueue0, request.id = id then
    let left := { connection with
      recvQueue0 := connection.recvQueue0.filter fun other => other.id ≠ id
      cancelled := connection.cancelled ++ [id] }
    if left.receiving = .recv ∧ left.recvQueue0 = [] then some left.readStop else some left
  else none

def tcpAllocCb0 (connection : Connected) : Option Connected :=
  if connection.curAlloc0 ≠ none then none
  else match connection.recvQueue0 with
  | [] => none
  | request :: rest =>
      if request.buf ∧ 0 < request.len then
        some { connection with curAlloc0 := some request, recvQueue0 := rest, phase := .allocated }
      else none

/-- `tcp_recv_cb0` for `nread = bytes.length`, up to the end of `__task_stand`. The window
that the request offers is its `len` cut to 32 bits. -/
def tcpRecvCb0 (connection : Connected) (bytes : List Byte) : Option Connected :=
  match connection.curAlloc0 with
  | none => none
  | some request =>
      if uvBufLen request.len < bytes.length then none
      else if bytes = [] then
        some { connection with
          recvQueue0 := request :: connection.recvQueue0
          curAlloc0 := none
          phase := .idle }
      else
        some { connection with
          curAlloc0 := none
          phase := .standing
          completed := connection.completed ++
            [{ id := request.id, len := bytes.length, bytes := bytes }] }

def tcpRecvCb0Back (connection : Connected) : Connected :=
  let back := { connection with phase := .idle }
  if back.recvQueue0 = [] then back.readStop else back

end Connected

inductive Label where
  | recv (buf : Bool) (len : Nat)
  | cancel (id : Nat)
  | alloc
  | read (bytes : List Byte)
  | back

def step (connection : Connected) : Label → Option Connected
  | .recv buf len => if connection.phase = .allocated then none else connection.recvRun buf len
  | .cancel id => if connection.phase = .allocated then none else connection.recvCancel id
  | .alloc =>
      if connection.phase = .idle ∧ connection.reading then connection.tcpAllocCb0 else none
  | .read bytes => if connection.phase = .allocated then connection.tcpRecvCb0 bytes else none
  | .back => if connection.phase = .standing then some connection.tcpRecvCb0Back else none

def Label.bytes : Label → List Byte
  | .read bytes => bytes
  | _ => []

/-- What the callbacks check about the queue and `cur_alloc0` when libuv calls them, and when
libuv may call them at all. -/
structure Checked (connection : Connected) : Prop where
  alloc : connection.phase = .idle → connection.reading →
    connection.curAlloc0 = none ∧ connection.recvQueue0 ≠ []
  read : connection.phase = .allocated → connection.curAlloc0 ≠ none
  active : connection.reading → connection.recvQueue0 ≠ [] ∨ connection.phase ≠ .idle

/-- The requests that have been issued and not cancelled, in the order of their issue. -/
def issued (connection : Connected) : List Nat :=
  (List.range connection.next).filter fun id => id ∉ connection.cancelled

/-- The requests that are completed or wait, in the order in which they are served. -/
def served (connection : Connected) : List Nat :=
  connection.completed.map Completed.id ++
    (connection.curAlloc0.toList ++ connection.recvQueue0).map Recv.id

structure Agrees (connection : Connected) : Prop where
  mode : connection.receiving = if connection.reading then .recv else .ready
  active : connection.reading → connection.phase = .idle → connection.recvQueue0 ≠ []
  waits : connection.recvQueue0 ≠ [] → connection.reading
  allocated : connection.phase = .allocated ↔ connection.curAlloc0.isSome
  reads : connection.phase = .allocated → connection.reading
  order : served connection = issued connection
  pending : ∀ id ∈ connection.cancelled, id < connection.next

variable {connection next : Connected}

theorem checked_of_agrees (agrees : Agrees connection) : Checked connection where
  alloc := by
    intro idle reading
    refine ⟨?_, agrees.active reading idle⟩
    by_contra some_
    have allocated := agrees.allocated.mpr (Option.isSome_iff_ne_none.mpr some_)
    rw [idle] at allocated
    cases allocated
  read := by
    intro phase
    exact Option.isSome_iff_ne_none.mp (agrees.allocated.mp phase)
  active := by
    intro reading
    by_cases idle : connection.phase = .idle
    · exact Or.inl (agrees.active reading idle)
    · exact Or.inr idle

theorem issued_next (agrees : Agrees connection) :
    (List.range (connection.next + 1)).filter (fun id => id ∉ connection.cancelled) =
      issued connection ++ [connection.next] := by
  have fresh : connection.next ∉ connection.cancelled := by
    intro member
    exact Nat.lt_irrefl _ (agrees.pending _ member)
  rw [List.range_succ, List.filter_append, issued]
  simp [fresh]

theorem agrees_recv {buf : Bool} {len : Nat} (agrees : Agrees connection)
    (taken : connection.recvRun buf len = some next) : Agrees next := by
  unfold Connected.recvRun at taken
  split at taken
  · cases taken
  · cases taken
    have order := agrees.order
    have mode := agrees.mode
    split
    · refine ⟨rfl, fun _ _ => (by simp), fun _ => rfl, agrees.allocated, fun _ => rfl, ?_, ?_⟩
      · simp only [served, issued, issued_next agrees] at order ⊢
        rw [← order]
        simp
      · exact fun id member => Nat.lt_succ_of_lt (agrees.pending id member)
    · rename_i busy
      have reading : connection.reading := by
        by_contra idle
        rw [if_neg idle] at mode
        exact busy mode
      refine ⟨mode, fun _ _ => (by simp), fun _ => reading, agrees.allocated, agrees.reads, ?_, ?_⟩
      · simp only [served, issued, issued_next agrees] at order ⊢
        rw [← order]
        simp
      · exact fun id member => Nat.lt_succ_of_lt (agrees.pending id member)

theorem served_nodup (agrees : Agrees connection) : (served connection).Nodup := by
  rw [agrees.order]
  exact List.nodup_range.filter _

theorem order_cancelled {id : Nat} (agrees : Agrees connection)
    (free : connection.curAlloc0 = none) (member : id ∈ connection.recvQueue0.map Recv.id) :
    connection.completed.map Completed.id ++
        (connection.recvQueue0.filter fun other => other.id ≠ id).map Recv.id =
      (List.range connection.next).filter fun other => other ∉ connection.cancelled ++ [id] := by
  have nodup := served_nodup agrees
  have order := agrees.order
  simp only [served, free, Option.toList_none, List.nil_append] at nodup order
  have apart : id ∉ connection.completed.map Completed.id := by
    intro earlier
    exact (List.nodup_append.mp nodup).2.2 id earlier id member rfl
  have left : ((connection.completed.map Completed.id ++ connection.recvQueue0.map Recv.id).filter
      fun other => other ≠ id) = connection.completed.map Completed.id ++
        (connection.recvQueue0.filter fun other => other.id ≠ id).map Recv.id := by
    have kept : (connection.completed.map Completed.id).filter (fun other => other ≠ id) =
        connection.completed.map Completed.id := by
      rw [List.filter_eq_self]
      intro other completed
      simp only [decide_eq_true_eq]
      rintro rfl
      exact apart completed
    rw [List.filter_append, kept, List.filter_map]
    rfl
  rw [← left, order, issued, List.filter_filter]
  apply List.filter_congr
  intro other _
  simp [and_comm]

theorem agrees_cancel {id : Nat} (agrees : Agrees connection)
    (unallocated : connection.phase ≠ .allocated)
    (taken : connection.recvCancel id = some next) : Agrees next := by
  have free : connection.curAlloc0 = none := by
    by_contra some_
    exact unallocated (agrees.allocated.mpr (Option.isSome_iff_ne_none.mpr some_))
  unfold Connected.recvCancel at taken
  split at taken
  · rename_i found
    obtain ⟨request, queued, rfl⟩ := found
    have member : request.id ∈ connection.recvQueue0.map Recv.id :=
      List.mem_map.mpr ⟨request, queued, rfl⟩
    have order := order_cancelled agrees free member
    have known : ∀ other ∈ connection.cancelled ++ [request.id], other < connection.next := by
      intro other inside
      rcases List.mem_append.mp inside with earlier | last
      · exact agrees.pending other earlier
      · rw [List.mem_singleton.mp last]
        have issued_ : request.id ∈ issued connection := by
          rw [← agrees.order, served, free]
          exact List.mem_append_right _ member
        exact List.mem_range.mp (List.mem_of_mem_filter issued_)
    dsimp only at taken
    split at taken
    · cases taken
      refine ⟨rfl, fun reading => (by cases reading), ?_, agrees.allocated,
        fun phase => absurd phase unallocated, ?_, known⟩
      · rename_i last
        exact fun more => absurd last.2 more
      · simpa [served, issued, Connected.readStop, free] using order
    · rename_i busy
      cases taken
      refine ⟨agrees.mode, ?_, ?_, agrees.allocated, agrees.reads, ?_, known⟩
      · intro reading _ last
        refine busy ⟨?_, last⟩
        have mode := agrees.mode
        rwa [if_pos reading] at mode
      · intro more
        apply agrees.waits
        rintro empty
        exact more (by simp [empty])
      · simpa [served, issued, free] using order
  · cases taken

theorem agrees_alloc (agrees : Agrees connection)
    (taken : connection.tcpAllocCb0 = some next) (reading : connection.reading) :
    Agrees next := by
  unfold Connected.tcpAllocCb0 at taken
  split at taken
  · cases taken
  · rename_i free
    rw [ne_eq, not_not] at free
    split at taken
    · cases taken
    · rename_i request rest queue
      split at taken
      · cases taken
        refine ⟨agrees.mode, fun _ idle => (by cases idle), fun _ => reading, (by simp),
          fun _ => reading, ?_, agrees.pending⟩
        have order := agrees.order
        simp only [served, issued, free, queue] at order ⊢
        exact order
      · cases taken

theorem agrees_read {bytes : List Byte} (agrees : Agrees connection)
    (phase : connection.phase = .allocated)
    (taken : connection.tcpRecvCb0 bytes = some next) : Agrees next := by
  have reading := agrees.reads phase
  unfold Connected.tcpRecvCb0 at taken
  split at taken
  · cases taken
  · rename_i request allocated
    have order := agrees.order
    simp only [served, issued, allocated] at order
    split at taken
    · cases taken
    · split at taken
      · cases taken
        refine ⟨agrees.mode, fun _ _ => (by simp), fun _ => reading, (by simp),
          fun _ => reading, ?_, agrees.pending⟩
        simpa [served, issued] using order
      · cases taken
        refine ⟨agrees.mode, fun _ idle => (by cases idle), fun _ => reading, (by simp),
          fun _ => reading, ?_, agrees.pending⟩
        simpa [served, issued] using order

theorem agrees_back (agrees : Agrees connection) (standing : connection.phase = .standing) :
    Agrees connection.tcpRecvCb0Back := by
  have free : connection.curAlloc0 = none := by
    by_contra some_
    have phase := agrees.allocated.mpr (Option.isSome_iff_ne_none.mpr some_)
    rw [standing] at phase
    cases phase
  unfold Connected.tcpRecvCb0Back
  dsimp only
  split
  · rename_i empty
    exact ⟨rfl, fun reading => (by cases reading), fun more => absurd empty more,
      (by simp [Connected.readStop, free]), fun phase => (by cases phase), agrees.order,
      agrees.pending⟩
  · rename_i more
    exact ⟨agrees.mode, fun _ _ => more, agrees.waits, (by simp [free]),
      fun phase => (by cases phase), agrees.order, agrees.pending⟩

theorem agrees_step (agrees : Agrees connection) (label : Label)
    (taken : step connection label = some next) : Agrees next := by
  cases label with
  | recv buf len =>
      simp only [step] at taken
      split at taken
      · cases taken
      · exact agrees_recv agrees taken
  | cancel id =>
      simp only [step] at taken
      split at taken
      · cases taken
      · rename_i unallocated
        exact agrees_cancel agrees unallocated taken
  | alloc =>
      simp only [step] at taken
      split at taken
      · rename_i called
        exact agrees_alloc agrees taken called.2
      · cases taken
  | read bytes =>
      simp only [step] at taken
      split at taken
      · rename_i phase
        exact agrees_read agrees phase taken
      · cases taken
  | back =>
      simp only [step] at taken
      split at taken
      · rename_i standing
        cases taken
        exact agrees_back agrees standing
      · cases taken

theorem agrees_new : Agrees {} := by
  refine ⟨rfl, ?_, ?_, ?_, ?_, rfl, ?_⟩ <;> simp

def delivered (connection : Connected) : List Byte :=
  connection.completed.flatMap Completed.bytes

theorem delivered_step (label : Label) (taken : step connection label = some next) :
    delivered next = delivered connection ++ label.bytes := by
  cases label with
  | recv buf len =>
      simp only [step, Connected.recvRun] at taken
      split at taken
      · cases taken
      · split at taken
        · cases taken
        · cases taken
          split <;> simp [delivered, Label.bytes]
  | cancel id =>
      simp only [step, Connected.recvCancel] at taken
      split at taken
      · cases taken
      · split at taken
        · split at taken
          · cases taken
            simp [delivered, Label.bytes, Connected.readStop]
          · cases taken
            simp [delivered, Label.bytes]
        · cases taken
  | alloc =>
      simp only [step, Connected.tcpAllocCb0] at taken
      split at taken
      · split at taken
        · cases taken
        · split at taken
          · cases taken
          · split at taken
            · cases taken
              simp [delivered, Label.bytes]
            · cases taken
      · cases taken
  | read bytes =>
      simp only [step, Connected.tcpRecvCb0] at taken
      split at taken
      · split at taken
        · cases taken
        · split at taken
          · cases taken
          · split at taken
            · rename_i empty
              cases taken
              simp [delivered, Label.bytes, empty]
            · cases taken
              simp [delivered, Label.bytes]
      · cases taken
  | back =>
      simp only [step] at taken
      split at taken
      · cases taken
        unfold Connected.tcpRecvCb0Back
        dsimp only
        split <;> simp [delivered, Label.bytes, Connected.readStop]
      · cases taken

theorem delivered_run {labels : List Label} {last : Connected}
    (run : replay step connection labels = some last) :
    delivered last = delivered connection ++ labels.flatMap Label.bytes := by
  induction labels generalizing connection with
  | nil =>
      cases run
      simp
  | cons label rest ih =>
      obtain ⟨middle, taken, tail⟩ := replay_cons run
      rw [ih tail, delivered_step label taken, List.flatMap_cons, List.append_assoc]

/-- In every run the callbacks find what they check, the requests are served in the order of
their issue, and together they get the bytes that were received. -/
theorem plain_recv (labels : List Label) (last : Connected)
    (run : replay step {} labels = some last) :
    Throughout step Checked {} labels ∧ served last = issued last ∧
      delivered last = labels.flatMap Label.bytes := by
  refine ⟨?_, ?_, ?_⟩
  · exact throughout_always Agrees Checked
      (fun _ label _ agrees taken => agrees_step agrees label taken)
      (fun _ agrees => checked_of_agrees agrees) labels agrees_new
  · have agrees := replay_always Agrees
      (fun _ label _ agrees taken => agrees_step agrees label taken) agrees_new run
    exact agrees.order
  · simpa [delivered] using delivered_run run

/-- The first request is served with the queue empty behind it; the task cancels a second
request, which stops the reading, and starts it again with a third. -/
def restarted : List Label :=
  [.recv true 4, .alloc, .read [], .alloc, .read [1, 2], .recv true 4, .cancel 1, .recv true 2,
    .back, .alloc, .read [3], .back]

theorem plain_recv_restarted : ∃ last, replay step {} restarted = some last ∧
    served last = issued last ∧ delivered last = [1, 2, 3] := by
  have reached : (replay step {} restarted).isSome := by decide
  obtain ⟨-, order, stream⟩ := plain_recv restarted _ (Option.some_get reached).symm
  exact ⟨_, (Option.some_get reached).symm, order, stream⟩

end Cocoflow.PlainReceive
