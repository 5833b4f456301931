import Mathlib.Data.List.Basic
import Cocoflow.LabelledRuns
import Cocoflow.TcpConnection

/-!
`recv_till` on one `tcp::connected` (src/tcp.cc). Bytes are read either straight into the
buffer of the request at the head of `recv_queue1` or, for a pattern request, into the
residual buffer `buf1`, from which `remaining` moves them on. Requests are served in `run`
itself, in `tcp_recv_cb1` and in `check_remaining`; a cancellation gives its bytes back to
`buf1` and leaves the clean-up to an asynchronous callback.

`buf1` is kept as the bytes `buf1[0..len1)` and the buffer of a request as the bytes
`buf[0..cur-buf)`. Control is in the event loop, or inside a `__task_stand` that a callback
has called; then the resumed task may issue and cancel requests before the callback goes on.
A failed `CHECK` has no next state. Read errors are not part of this machine.
-/

namespace Cocoflow.RecvTill

open LabelledRuns TcpConnection

structure Request where
  id : Nat
  capacity : Nat
  pattern : Option (List Byte)
  data : List Byte
  left : Nat
  len : Nat
  deriving DecidableEq

def Request.new (id capacity : Nat) (pattern : Option (List Byte)) : Option Request :=
  if capacity = 0 ∨ pattern = some [] then none
  else some
    { id := id, capacity := capacity, pattern := pattern
      data := [], left := capacity, len := capacity }

/-- `bufbuf`: the offset right behind the first match. -/
def bufbuf (buf1 buf2 : List Byte) : Option Nat :=
  if buf1 = [] ∨ buf1.length < buf2.length then none
  else if buf2 = [] then some 0
  else ((List.range (buf1.length - buf2.length + 1)).find? fun i =>
    (buf1.drop i).take buf2.length = buf2).map (· + buf2.length)

/-- The label `____remaining_fill`: `left` bytes complete the buffer. -/
def remainingFill (buf1 : List Byte) (request : Request) : Bool × List Byte × Request :=
  (true, buf1.drop request.left, { request with data := request.data ++ buf1.take request.left })

/-- `recv_till::remaining` on the residual bytes: whether the request is complete, what is
left of the residual, and the request. A completed request keeps its old `cur` and `left`
in the source; here `data` also shows the bytes of the last copy. -/
def remaining (buf1 : List Byte) (request : Request) : Option (Bool × List Byte × Request) :=
  if buf1 = [] then none
  else match request.pattern with
  | none =>
      if request.left ≤ buf1.length then some (remainingFill buf1 request)
      else some (false, [],
        { request with
          data := request.data ++ buf1
          left := request.left - buf1.length })
  | some pattern =>
      if buf1.length < pattern.length then some (false, buf1, request)
      else match bufbuf buf1 pattern with
      | some copy =>
          if request.left ≤ copy then some (remainingFill buf1 request)
          else some (true, buf1.drop copy,
            { request with
              data := request.data ++ buf1.take copy
              len := request.data.length + copy })
      | none =>
          let copy := buf1.length - pattern.length + 1
          if request.left ≤ copy then some (remainingFill buf1 request)
          else some (false, buf1.drop copy,
            { request with
              data := request.data ++ buf1.take copy
              left := request.left - copy })

/-- `asyncCancel` says that `async_cancel1` is allocated, `asyncPending` that
`uv_async_send` has been called and its callback is still to come, `standing` that control
is inside the `__task_stand` of a callback. The last three fields record the history: all
bytes read, the completed requests and the issued requests in order. -/
structure Connected where
  receiving : Receiving := .ready
  buf1 : List Byte := []
  size1 : Nat := 0
  allocated : Bool := false
  queue : List Request := []
  curAlloc : Option Request := none
  asyncCancel : Bool := false
  asyncPending : Bool := false
  standing : Bool := false
  received : List Byte := []
  completed : List Request := []
  issued : List Request := []
  deriving DecidableEq

namespace Connected

def len1 (connection : Connected) : Nat := connection.buf1.length

def complete (connection : Connected) (request : Request) : Connected :=
  { connection with completed := connection.completed ++ [request] }

/-- The end of `recv_till::run`: reading is started if necessary and the task waits. -/
def enqueue (connection : Connected) (request : Request) : Option Connected :=
  match connection.receiving with
  | .ready => some { connection with
      receiving := .recvTill
      asyncCancel := true
      asyncPending := false
      queue := connection.queue ++ [request] }
  | .recvTill => some { connection with queue := connection.queue ++ [request] }
  | _ => none

/-- `recv_till::run`. A request that finds residual bytes and no other request tries to
serve itself; what it took stays taken when it has to wait. -/
def run (connection : Connected) (request : Request) : Option Connected :=
  if connection.buf1 ≠ [] ∧ connection.queue = [] then
    match remaining connection.buf1 request with
    | some (true, rest, served) => some ({ connection with buf1 := rest }.complete served)
    | some (false, rest, waiting) => { connection with buf1 := rest }.enqueue waiting
    | none => none
  else connection.enqueue request

/-- `recv_till::cancel` of a waiting request. The bytes it holds go behind the residual. -/
def cancel (connection : Connected) (request : Request) : Option Connected :=
  if connection.asyncCancel then
    let fallback := request.data.length
    let grown := sizeSub connection.size1 connection.len1 < fallback
    some { connection with
      queue := connection.queue.erase request
      allocated := connection.allocated || (decide (fallback ≠ 0) && decide grown)
      size1 := if fallback ≠ 0 ∧ grown then connection.size1 + connection.len1 + fallback
        else connection.size1
      buf1 := connection.buf1 ++ request.data
      asyncPending := true }
  else none

/-- The end of `check_remaining`: with no request left the reading stops and the handle of
the fallback is closed, which also drops a callback still to come. -/
def stopReading (connection : Connected) : Option Connected :=
  if connection.queue = [] then
    if connection.asyncCancel then
      some { connection with
        receiving := .ready
        asyncCancel := false
        asyncPending := false
        standing := false }
    else none
  else some { connection with standing := false }

/-- `check_remaining` up to its next `__task_stand`, or to its end. -/
def checkRemaining (connection : Connected) : Option Connected :=
  match connection.buf1, connection.queue with
  | _ :: _, request :: others =>
      match remaining connection.buf1 request with
      | some (true, rest, served) =>
          some ({ connection with buf1 := rest, queue := others, standing := true }.complete served)
      | some (false, rest, waiting) =>
          { connection with buf1 := rest, queue := waiting :: others }.stopReading
      | none => none
  | _, _ => connection.stopReading

def tcpAllocCb1 (connection : Connected) : Option (Connected × Nat) :=
  match connection.curAlloc, connection.queue with
  | none, request :: others =>
      match request.pattern with
      | none =>
          if connection.buf1 = [] then
            some ({ connection with curAlloc := some request, queue := others },
              uvBufLen request.left)
          else none
      | some _ =>
          let size1 := if connection.allocated then connection.size1 else 1024
          some ({ connection with
              curAlloc := some request, queue := others, allocated := true, size1 := size1 },
            uvBufLen (sizeSub size1 connection.len1))
  | _, _ => none

/-- `tcp_recv_cb1` with `nread ≥ 0`, up to its `__task_stand` or its end. Its two `CHECK`s cast
to `ssize_t`: that is this comparison for a buffer of less than 2^63 bytes. -/
def tcpRecvCb1 (connection : Connected) (chunk : List Byte) : Option Connected :=
  match connection.curAlloc with
  | none => none
  | some request =>
      let released := { connection with
        curAlloc := none, received := connection.received ++ chunk }
      if chunk = [] then some { released with queue := request :: connection.queue }
      else match request.pattern with
      | none =>
          let filled := { request with data := request.data ++ chunk }
          if request.left < chunk.length then none
          else if chunk.length = request.left then
            some ({ released with standing := true }.complete filled)
          else
            { released with
              queue := { filled with left := request.left - chunk.length } ::
                connection.queue }.checkRemaining
      | some _ =>
          if sizeSub connection.size1 connection.len1 < chunk.length then none
          else match remaining (connection.buf1 ++ chunk) request with
          | some (true, rest, served) =>
              some ({ released with buf1 := rest, standing := true }.complete served)
          | some (false, rest, waiting) =>
              { released with buf1 := rest, queue := waiting :: connection.queue }.checkRemaining
          | none => none

end Connected

/-- `issue` runs a new request, `cancel` a waiting one's `cancel`, `read` is one readable
event, `fallback` the asynchronous callback, and `back` the return of a `__task_stand`. -/
inductive Label where
  | issue (capacity : Nat) (pattern : Option (List Byte))
  | cancel (id : Nat)
  | read (chunk : List Byte)
  | fallback
  | back
  deriving DecidableEq

def step (connection : Connected) : Label → Option Connected
  | .issue capacity pattern =>
      (Request.new connection.issued.length capacity pattern).bind fun request =>
        { connection with issued := connection.issued ++ [request] }.run request
  | .cancel id => (connection.queue.find? (·.id = id)).bind connection.cancel
  | .read chunk =>
      if connection.standing ∨ connection.receiving ≠ .recvTill then none
      else connection.tcpAllocCb1.bind fun (allocated, window) =>
        if window = 0 ∨ window < chunk.length then none else allocated.tcpRecvCb1 chunk
  | .fallback =>
      if connection.standing ∨ connection.asyncPending = false then none
      else { connection with asyncPending := false }.checkRemaining
  | .back => if connection.standing then connection.checkRemaining else none

/-- The outcomes of `remaining`: whether the request is complete, the residual it leaves,
and the request. -/
inductive Remains (buf1 : List Byte) (request : Request) : Bool → List Byte → Request → Prop
  | fill (kind : request.pattern = none) (enough : request.left ≤ buf1.length) :
      Remains buf1 request true (buf1.drop request.left)
        { request with data := request.data ++ buf1.take request.left }
  | drained (kind : request.pattern = none) (short : buf1.length < request.left) :
      Remains buf1 request false []
        { request with data := request.data ++ buf1, left := request.left - buf1.length }
  | unread (pattern : List Byte) (kind : request.pattern = some pattern)
      (short : buf1.length < pattern.length) :
      Remains buf1 request false buf1 request
  | found (pattern : List Byte) (kind : request.pattern = some pattern) (copy : Nat)
      (long : pattern.length ≤ buf1.length) (hit : bufbuf buf1 pattern = some copy)
      (room : copy < request.left) :
      Remains buf1 request true (buf1.drop copy)
        { request with
          data := request.data ++ buf1.take copy
          len := request.data.length + copy }
  | foundFull (pattern : List Byte) (kind : request.pattern = some pattern) (copy : Nat)
      (long : pattern.length ≤ buf1.length) (hit : bufbuf buf1 pattern = some copy)
      (full : request.left ≤ copy) :
      Remains buf1 request true (buf1.drop request.left)
        { request with data := request.data ++ buf1.take request.left }
  | moved (pattern : List Byte) (kind : request.pattern = some pattern)
      (long : pattern.length ≤ buf1.length) (miss : bufbuf buf1 pattern = none)
      (room : buf1.length - pattern.length + 1 < request.left) :
      Remains buf1 request false (buf1.drop (buf1.length - pattern.length + 1))
        { request with
          data := request.data ++ buf1.take (buf1.length - pattern.length + 1)
          left := request.left - (buf1.length - pattern.length + 1) }
  | movedFull (pattern : List Byte) (kind : request.pattern = some pattern)
      (long : pattern.length ≤ buf1.length) (miss : bufbuf buf1 pattern = none)
      (full : request.left ≤ buf1.length - pattern.length + 1) :
      Remains buf1 request true (buf1.drop request.left)
        { request with data := request.data ++ buf1.take request.left }

theorem remaining_remains {buf1 rest : List Byte} {request served : Request} {finished : Bool}
    (taken : remaining buf1 request = some (finished, rest, served)) :
    buf1 ≠ [] ∧ Remains buf1 request finished rest served := by
  unfold remaining at taken
  split at taken
  · cases taken
  · rename_i nonempty
    refine ⟨nonempty, ?_⟩
    split at taken
    · rename_i kind
      split at taken
      · rename_i enough
        cases taken
        exact .fill kind enough
      · rename_i short
        cases taken
        exact .drained kind (Nat.lt_of_not_le short)
    · rename_i pattern kind
      split at taken
      · rename_i short
        cases taken
        exact .unread pattern kind short
      · rename_i long
        have fits := Nat.le_of_not_lt long
        split at taken
        · rename_i copy hit
          split at taken
          · rename_i full
            cases taken
            exact .foundFull pattern kind copy fits hit full
          · rename_i room
            cases taken
            exact .found pattern kind copy fits hit (Nat.lt_of_not_le room)
        · rename_i miss
          dsimp only at taken
          split at taken
          · rename_i full
            cases taken
            exact .movedFull pattern kind fits miss full
          · rename_i room
            cases taken
            exact .moved pattern kind fits miss (Nat.lt_of_not_le room)

theorem Remains.conserves {buf1 rest : List Byte} {request served : Request} {finished : Bool}
    (remains : Remains buf1 request finished rest served) :
    served.data ++ rest = request.data ++ buf1 := by
  cases remains <;> simp [List.append_assoc]

theorem Remains.pattern {buf1 rest : List Byte} {request served : Request} {finished : Bool}
    (remains : Remains buf1 request finished rest served) :
    served.pattern = request.pattern := by
  cases remains <;> rfl

theorem Remains.fill_waits {buf1 rest : List Byte} {request waiting : Request}
    (remains : Remains buf1 request false rest waiting) (kind : request.pattern = none) :
    rest = [] := by
  cases remains with
  | drained _ short => rfl
  | unread pattern other short => rw [kind] at other; cases other
  | moved pattern other long miss room => rw [kind] at other; cases other

theorem checkRemaining_cases {connection next : Connected}
    (taken : connection.checkRemaining = some next) :
    (∃ request others rest served, connection.queue = request :: others ∧
      connection.buf1 ≠ [] ∧ Remains connection.buf1 request true rest served ∧
      next = { connection with
        buf1 := rest, queue := others, standing := true
        completed := connection.completed ++ [served] }) ∨
    (∃ request others rest waiting, connection.queue = request :: others ∧
      connection.buf1 ≠ [] ∧ Remains connection.buf1 request false rest waiting ∧
      next = { connection with buf1 := rest, queue := waiting :: others, standing := false }) ∨
    (connection.queue = [] ∧ connection.asyncCancel = true ∧
      next = { connection with
        receiving := .ready, asyncCancel := false, asyncPending := false, standing := false }) ∨
    (connection.buf1 = [] ∧ connection.queue ≠ [] ∧ next = { connection with standing := false }) := by
  unfold Connected.checkRemaining at taken
  split at taken
  · rename_i queued
    rw [queued]
    split at taken
    · rename_i served
      cases taken
      obtain ⟨nonempty, remains⟩ := remaining_remains served
      exact Or.inl ⟨_, _, _, _, rfl, nonempty, remains, rfl⟩
    · rename_i waits
      simp only [Connected.stopReading, List.cons_ne_nil, ↓reduceIte, Option.some.injEq] at taken
      obtain ⟨nonempty, remains⟩ := remaining_remains waits
      exact Or.inr (Or.inl ⟨_, _, _, _, rfl, nonempty, remains, taken.symm⟩)
    · cases taken
  · rename_i noWork
    unfold Connected.stopReading at taken
    split at taken
    · rename_i empty
      split at taken
      · rename_i handle
        cases taken
        exact Or.inr (Or.inr (Or.inl ⟨empty, handle, rfl⟩))
      · cases taken
    · rename_i nonempty
      cases taken
      refine Or.inr (Or.inr (Or.inr ⟨?_, nonempty, rfl⟩))
      cases residual : connection.buf1 with
      | nil => rfl
      | cons byte bytes =>
          cases queued : connection.queue with
          | nil => exact absurd queued nonempty
          | cons request others => exact absurd queued (noWork byte bytes request others residual)

theorem enqueue_cases {connection next : Connected} {request : Request}
    (taken : connection.enqueue request = some next) :
    (connection.receiving = .ready ∧ next = { connection with
      receiving := .recvTill, asyncCancel := true, asyncPending := false
      queue := connection.queue ++ [request] }) ∨
    (connection.receiving = .recvTill ∧
      next = { connection with queue := connection.queue ++ [request] }) := by
  unfold Connected.enqueue at taken
  split at taken
  · rename_i mode
    cases taken
    exact Or.inl ⟨mode, rfl⟩
  · rename_i mode
    cases taken
    exact Or.inr ⟨mode, rfl⟩
  · cases taken

/-- All that `recv_till::run` can do: the request is served from the residual, or it waits,
with what the residual gave it or with nothing. -/
theorem run_cases {connection next : Connected} {request : Request}
    (taken : connection.run request = some next) :
    (∃ rest served, connection.queue = [] ∧
      Remains connection.buf1 request true rest served ∧
      next = { connection with
        buf1 := rest, completed := connection.completed ++ [served] }) ∨
    (∃ rest waiting, connection.queue = [] ∧
      Remains connection.buf1 request false rest waiting ∧
      { connection with buf1 := rest }.enqueue waiting = some next) ∨
    ((connection.buf1 = [] ∨ connection.queue ≠ []) ∧ connection.enqueue request = some next) := by
  unfold Connected.run at taken
  split at taken
  · rename_i alone
    split at taken
    · rename_i served
      cases taken
      exact Or.inl ⟨_, _, alone.2, (remaining_remains served).2, rfl⟩
    · rename_i waits
      exact Or.inr (Or.inl ⟨_, _, alone.2, (remaining_remains waits).2, taken⟩)
    · cases taken
  · rename_i busy
    refine Or.inr (Or.inr ⟨?_, taken⟩)
    by_cases residual : connection.buf1 = []
    · exact Or.inl residual
    · exact Or.inr fun empty => busy ⟨residual, empty⟩

theorem tcpAllocCb1_cases {connection allocated : Connected} {window : Nat}
    (taken : connection.tcpAllocCb1 = some (allocated, window)) :
    connection.curAlloc = none ∧ ∃ request others, connection.queue = request :: others ∧
      (request.pattern = none → connection.buf1 = []) ∧ ∃ size1 owned,
      allocated = { connection with
        curAlloc := some request, queue := others, size1 := size1, allocated := owned } ∧
      (request.pattern = none → size1 = connection.size1 ∧ owned = connection.allocated) := by
  unfold Connected.tcpAllocCb1 at taken
  split at taken
  · rename_i request others free queued
    refine ⟨free, request, others, queued, ?_⟩
    split at taken
    · rename_i kind
      split at taken
      · rename_i empty
        cases taken
        exact ⟨fun _ => empty, connection.size1, connection.allocated, rfl, fun _ => ⟨rfl, rfl⟩⟩
      · cases taken
    · rename_i pattern kind
      cases taken
      have notFill : request.pattern ≠ none := by
        rw [kind]
        exact Option.some_ne_none pattern
      exact ⟨fun fill => absurd fill notFill, _, _, rfl, fun fill => absurd fill notFill⟩
  · cases taken

/-- A readable event passed the `CHECK`s of `tcp_alloc_cb1`. Its bytes complete the head
request, or they are kept and `check_remaining` follows. -/
theorem read_cases {connection next : Connected} {chunk : List Byte}
    (taken : step connection (.read chunk) = some next) :
    connection.standing = false ∧ connection.receiving = .recvTill ∧
    connection.curAlloc = none ∧
    ∃ request others size1 allocated, connection.queue = request :: others ∧
      ((chunk = [] ∧ (request.pattern = none → connection.buf1 = []) ∧
          next = { connection with size1 := size1, allocated := allocated }) ∨
        (request.pattern = none ∧ connection.buf1 = [] ∧ chunk.length = request.left ∧
          next = { connection with
            queue := others, standing := true, received := connection.received ++ chunk
            completed := connection.completed ++
              [{ request with data := request.data ++ chunk }] }) ∨
        (request.pattern = none ∧ connection.buf1 = [] ∧ chunk.length < request.left ∧
          { connection with
            received := connection.received ++ chunk
            queue := { request with
              data := request.data ++ chunk, left := request.left - chunk.length } ::
                others }.checkRemaining = some next) ∨
        (∃ rest served, Remains (connection.buf1 ++ chunk) request true rest served ∧
          request.pattern ≠ none ∧
          next = { connection with
            size1 := size1, allocated := allocated, buf1 := rest, queue := others
            standing := true, received := connection.received ++ chunk
            completed := connection.completed ++ [served] }) ∨
        (∃ rest waiting, Remains (connection.buf1 ++ chunk) request false rest waiting ∧
          request.pattern ≠ none ∧
          { connection with
            size1 := size1, allocated := allocated, buf1 := rest
            received := connection.received ++ chunk
            queue := waiting :: others }.checkRemaining = some next)) := by
  simp only [step] at taken
  split at taken
  · cases taken
  · rename_i reading
    obtain ⟨⟨allocated, window⟩, alloc, recv⟩ := Option.bind_eq_some_iff.mp taken
    dsimp only at recv
    split at recv
    · cases recv
    · obtain ⟨free, request, others, queued, unread, size1, owned, rfl, frame⟩ :=
        tcpAllocCb1_cases alloc
      refine ⟨by simpa using fun standing => reading (Or.inl standing), ?_, free, request,
        others, size1, owned, queued, ?_⟩
      · by_contra mode
        exact reading (Or.inr mode)
      · simp only [Connected.tcpRecvCb1] at recv
        split at recv
        · rename_i nothing
          cases recv
          refine Or.inl ⟨nothing, unread, ?_⟩
          simp [nothing, ← queued, free]
        · split at recv
          · -- by length: the request itself was offered as the buffer
            rename_i kind
            obtain ⟨rfl, rfl⟩ := frame kind
            split at recv
            · cases recv
            · split at recv
              · rename_i full
                cases recv
                refine Or.inr (Or.inl ⟨kind, unread kind, full, ?_⟩)
                simp [Connected.complete, free]
              · rename_i open_ partly
                refine Or.inr (Or.inr (Or.inl ⟨kind, unread kind, by omega, ?_⟩))
                rw [← recv, free]
          · -- by pattern: the chunk lies behind the bytes that were kept
            rename_i pattern kind
            have notFill : request.pattern ≠ none := by
              rw [kind]
              exact Option.some_ne_none pattern
            split at recv
            · cases recv
            · split at recv
              · rename_i served
                cases recv
                refine Or.inr (Or.inr (Or.inr (Or.inl
                  ⟨_, _, (remaining_remains served).2, notFill, ?_⟩)))
                simp [Connected.complete, free]
              · rename_i waits
                refine Or.inr (Or.inr (Or.inr (Or.inr
                  ⟨_, _, (remaining_remains waits).2, notFill, ?_⟩)))
                rw [← recv, free]
              · cases recv

theorem cancel_cases {connection next : Connected} {id : Nat}
    (taken : step connection (.cancel id) = some next) :
    ∃ request size1 allocated, connection.queue.find? (·.id = id) = some request ∧
      connection.asyncCancel = true ∧
      next = { connection with
        size1 := size1, allocated := allocated
        queue := connection.queue.erase request
        buf1 := connection.buf1 ++ request.data
        asyncPending := true } := by
  obtain ⟨request, found, cancelled⟩ := Option.bind_eq_some_iff.mp taken
  unfold Connected.cancel at cancelled
  split at cancelled
  · rename_i handle
    cases cancelled
    exact ⟨request, _, _, found, handle, rfl⟩
  · cases cancelled

theorem resume_cases {connection next : Connected} {label : Label}
    (resumes : label = .fallback ∨ label = .back) (taken : step connection label = some next) :
    ∃ asyncPending,
      { connection with asyncPending := asyncPending }.checkRemaining = some next := by
  rcases resumes with rfl | rfl
  · simp only [step] at taken
    split at taken
    · cases taken
    · exact ⟨false, taken⟩
  · simp only [step] at taken
    split at taken
    · exact ⟨connection.asyncPending, taken⟩
    · cases taken

theorem new_request {id capacity : Nat} {pattern : Option (List Byte)} {request : Request}
    (made : Request.new id capacity pattern = some request) :
    0 < capacity ∧ pattern ≠ some [] ∧ request =
      { id := id, capacity := capacity, pattern := pattern
        data := [], left := capacity, len := capacity } := by
  unfold Request.new at made
  split at made
  · cases made
  · rename_i checked
    cases made
    exact ⟨Nat.pos_of_ne_zero fun zero => checked (Or.inl zero),
      fun empty => checked (Or.inr empty), rfl⟩

theorem issue_cases {connection next : Connected} {capacity : Nat}
    {pattern : Option (List Byte)}
    (taken : step connection (.issue capacity pattern) = some next) :
    ∃ request, Request.new connection.issued.length capacity pattern = some request ∧
      { connection with issued := connection.issued ++ [request] }.run request = some next :=
  Option.bind_eq_some_iff.mp taken

end Cocoflow.RecvTill
