import Mathlib.Data.List.Basic
import Cocoflow.LabelledRuns
import Cocoflow.TcpConnection
import Cocoflow.FirstMatch
import Cocoflow.RecvTill
import Cocoflow.ByteConservation
import Cocoflow.OneShotReceive

/-!
A `recv_till` connection with one task that has at most one request at a time and never
cancels it. A request that waits has left too few bytes in `buf1` to go on, so every further
byte is read, and the request is served as soon as the bytes of its one-shot result are there.
-/

namespace Cocoflow.SoleReceiver

open LabelledRuns TcpConnection FirstMatch RecvTill ByteConservation OneShotReceive

/-- What is left in `buf1` is too short for the request. -/
def Short (request : Request) (buf1 : List Byte) : Prop :=
  match request.pattern with
  | none => buf1 = []
  | some pattern => buf1.length < pattern.length

def Sized (connection : Connected) : Prop :=
  connection.allocated = true → connection.size1 = 1024

structure Steady (connection : Connected) : Prop where
  inOrder : InOrder connection
  free : connection.curAlloc = none
  sized : Sized connection

structure Waiting (connection : Connected) (request : Request) : Prop where
  queue : connection.queue = [request]
  short : Short request connection.buf1
  receiving : connection.receiving = .recvTill
  handle : connection.asyncCancel = true

/-- The task has no request: it runs inside a `__task_stand`, or reading is stopped. -/
structure Vacant (connection : Connected) : Prop where
  queue : connection.queue = []
  standing : connection.standing = true →
    connection.receiving = .recvTill ∧ connection.asyncCancel = true
  stopped : connection.standing = false → connection.receiving = .ready

inductive Outcome (request : Request) (completed : List Request) (after : Connected) : Prop
  | served (done : Request) (same : key done = key request)
      (history : after.completed = completed ++ [done]) (vacant : Vacant after)
  | waiting (waits : Request) (same : key waits = key request)
      (history : after.completed = completed) (waiting : Waiting after waits)

theorem remains_short {buf1 rest : List Byte} {request waits : Request}
    (remains : Remains buf1 request false rest waits)
    (proper : request.pattern ≠ some []) : Short waits rest := by
  cases remains with
  | drained kind short => simp [Short, kind]
  | unread pattern kind short => simpa [Short, kind] using short
  | moved pattern kind long miss room =>
      have positive : 0 < pattern.length := by
        rw [List.length_pos_iff]
        intro empty
        exact proper (by rw [kind, empty])
      simp only [Short, kind, List.length_drop]
      omega

theorem remaining_short {buf1 : List Byte} {request : Request} (short : Short request buf1)
    (nonempty : buf1 ≠ []) : remaining buf1 request = some (false, buf1, request) := by
  unfold remaining
  rw [if_neg nonempty]
  cases kind : request.pattern with
  | none =>
      simp only [Short, kind] at short
      exact absurd short nonempty
  | some pattern =>
      simp only [Short, kind] at short
      simp only [if_pos short]

theorem remaining_total {buf1 : List Byte} (request : Request) (nonempty : buf1 ≠ []) :
    ∃ finished rest after, remaining buf1 request = some (finished, rest, after) := by
  unfold remaining
  rw [if_neg nonempty]
  split
  · split
    · exact ⟨_, _, _, rfl⟩
    · exact ⟨_, _, _, rfl⟩
  · split
    · exact ⟨_, _, _, rfl⟩
    · split
      · split
        · exact ⟨_, _, _, rfl⟩
        · exact ⟨_, _, _, rfl⟩
      · dsimp only
        split
        · exact ⟨_, _, _, rfl⟩
        · exact ⟨_, _, _, rfl⟩

section Steps

variable {connection next : Connected} {request : Request}

theorem checkRemaining_waiting (waiting : Waiting connection request) :
    connection.checkRemaining = some { connection with standing := false } := by
  have queued := waiting.queue
  unfold Connected.checkRemaining
  split
  · rename_i byte bytes head others residual same
    obtain ⟨rfl, rfl⟩ : head = request ∧ others = [] := by simpa [queued] using same.symm
    rw [remaining_short waiting.short (by simp [residual])]
    simp only [Connected.stopReading, List.cons_ne_nil, if_false]
    rw [← queued]
  · simp [Connected.stopReading, queued]

theorem checkRemaining_vacant (empty : connection.queue = [])
    (handle : connection.asyncCancel = true) :
    connection.checkRemaining = some { connection with
      receiving := .ready, asyncCancel := false, asyncPending := false, standing := false } := by
  unfold Connected.checkRemaining
  split
  · rename_i same
    rw [empty] at same
    cases same
  · simp [Connected.stopReading, empty, handle]

theorem checkRemaining_total (waiting : Waiting connection request) :
    connection.checkRemaining.isSome := by
  rw [checkRemaining_waiting waiting]
  rfl

theorem waiting_standing (waiting : Waiting connection request) :
    Waiting { connection with standing := false } request :=
  ⟨waiting.queue, waiting.short, waiting.receiving, waiting.handle⟩

theorem back_waiting (waiting : Waiting connection request)
    (standing : connection.standing = true) :
    ∃ after, step connection .back = some after ∧ Waiting after request ∧
      after.completed = connection.completed := by
  simp only [step, standing, if_true]
  rw [checkRemaining_waiting waiting]
  exact ⟨_, rfl, waiting_standing waiting, rfl⟩

theorem back_vacant (vacant : Vacant connection) (standing : connection.standing = true) :
    ∃ after, step connection .back = some after ∧ Vacant after ∧
      after.completed = connection.completed := by
  simp only [step, standing, if_true]
  rw [checkRemaining_vacant vacant.queue (vacant.standing standing).2]
  exact ⟨_, rfl, ⟨vacant.queue, by simp, by simp⟩, rfl⟩

end Steps

section Issue

variable {connection next : Connected} {capacity : Nat} {pattern : Option (List Byte)}

theorem enqueue_vacant {request : Request} (vacant : Vacant connection)
    (short : Short request connection.buf1) :
    ∃ after, connection.enqueue request = some after ∧ Waiting after request ∧
      after.completed = connection.completed := by
  unfold Connected.enqueue
  cases standing : connection.standing with
  | false =>
      rw [vacant.stopped standing]
      exact ⟨_, rfl, ⟨by simp [vacant.queue], short, rfl, rfl⟩, rfl⟩
  | true =>
      obtain ⟨mode, handle⟩ := vacant.standing standing
      rw [mode]
      exact ⟨_, rfl, ⟨by simp [vacant.queue], short, rfl, handle⟩, rfl⟩

theorem run_vacant {request : Request} (vacant : Vacant connection)
    (proper : request.pattern ≠ some []) :
    ∃ after, connection.run request = some after ∧
      Outcome request connection.completed after := by
  unfold Connected.run
  by_cases residual : connection.buf1 = []
  · have short : Short request connection.buf1 := by
      unfold Short
      split
      · exact residual
      · rename_i bytes kind
        rw [residual, List.length_nil, List.length_pos_iff]
        intro empty
        exact proper (by rw [kind, empty])
    rw [if_neg fun busy => busy.1 residual]
    obtain ⟨after, waits, waiting, completed⟩ := enqueue_vacant vacant short
    exact ⟨after, waits, .waiting request rfl completed waiting⟩
  · rw [if_pos ⟨residual, vacant.queue⟩]
    obtain ⟨finished, rest, done, remains⟩ := remaining_total request residual
    have kept := remains_key (remaining_remains remains).2
    rw [remains]
    cases finished with
    | true =>
        exact ⟨_, rfl, .served done kept rfl ⟨vacant.queue, vacant.standing, vacant.stopped⟩⟩
    | false =>
        have still : Vacant { connection with buf1 := rest } :=
          ⟨vacant.queue, vacant.standing, vacant.stopped⟩
        obtain ⟨after, waits, waiting, completed⟩ :=
          enqueue_vacant still (remains_short (remaining_remains remains).2 proper)
        exact ⟨after, waits, .waiting done kept completed waiting⟩

theorem issue_vacant (vacant : Vacant connection) (positive : 0 < capacity)
    (proper : pattern ≠ some []) :
    ∃ request after, request.capacity = capacity ∧ request.pattern = pattern ∧
      step connection (.issue capacity pattern) = some after ∧
      Outcome request connection.completed after := by
  let request : Request :=
    { id := connection.issued.length, capacity := capacity, pattern := pattern
      data := [], left := capacity, len := capacity }
  have made : Request.new connection.issued.length capacity pattern = some request := by
    unfold Request.new
    rw [if_neg]
    rintro (zero | empty)
    · omega
    · exact proper empty
  have still : Vacant { connection with issued := connection.issued ++ [request] } :=
    ⟨vacant.queue, vacant.standing, vacant.stopped⟩
  obtain ⟨after, ran, outcome⟩ := run_vacant still (show request.pattern ≠ some [] from proper)
  refine ⟨request, after, rfl, rfl, ?_, outcome⟩
  simp only [step, made, Option.bind_some]
  exact ran

end Issue

section Read

variable {connection next : Connected} {request : Request} {chunk : List Byte}

theorem read_waiting (inOrder : InOrder connection) (waiting : Waiting connection request)
    (taken : step connection (.read chunk) = some next) :
    Outcome request connection.completed next := by
  have proper := (inOrder.searching request (by simp [waiting.queue])).pattern
  obtain ⟨-, -, -, head, others, size1, allocated, queued, outcome⟩ := read_cases taken
  obtain ⟨rfl, rfl⟩ : head = request ∧ others = [] := by simpa [waiting.queue] using queued.symm
  rcases outcome with ⟨-, -, rfl⟩ | ⟨kind, empty, full, rfl⟩ | ⟨kind, empty, partly, continues⟩ |
    ⟨rest, done, remains, -, rfl⟩ | ⟨rest, waits, remains, -, continues⟩
  · exact .waiting head rfl rfl ⟨waiting.queue, waiting.short, waiting.receiving, waiting.handle⟩
  · refine .served { head with data := head.data ++ chunk } rfl rfl
      ⟨rfl, fun _ => ⟨waiting.receiving, waiting.handle⟩, ?_⟩
    intro stopped
    cases stopped
  · let waits : Request :=
      { head with data := head.data ++ chunk, left := head.left - chunk.length }
    have still : Waiting { connection with
        received := connection.received ++ chunk
        queue := [waits] } waits :=
      ⟨rfl, by simp [waits, Short, kind, empty], waiting.receiving, waiting.handle⟩
    rw [checkRemaining_waiting still] at continues
    cases continues
    exact .waiting waits rfl rfl (waiting_standing still)
  · refine .served done (remains_key remains) rfl
      ⟨rfl, fun _ => ⟨waiting.receiving, waiting.handle⟩, ?_⟩
    intro stopped
    cases stopped
  · have still : Waiting { connection with
        size1 := size1, allocated := allocated, buf1 := rest
        received := connection.received ++ chunk
        queue := [waits] } waits :=
      ⟨rfl, remains_short remains proper, waiting.receiving, waiting.handle⟩
    rw [checkRemaining_waiting still] at continues
    cases continues
    exact .waiting waits (remains_key remains) rfl (waiting_standing still)

theorem tcpRecvCb1_fill {released : Connected} (waiting : Waiting connection request)
    (kind : request.pattern = none) (room : 0 < request.left) (byte : Byte)
    (same : released = { connection with curAlloc := some request, queue := [] }) :
    (released.tcpRecvCb1 [byte]).isSome := by
  have short := waiting.short
  simp only [Short, kind] at short
  subst same
  simp only [Connected.tcpRecvCb1, List.cons_ne_nil, if_false, kind, List.length_cons,
    List.length_nil]
  rw [if_neg (by omega)]
  split
  · rfl
  · exact checkRemaining_total ⟨rfl, short, waiting.receiving, waiting.handle⟩

theorem tcpRecvCb1_pattern {released : Connected} {pattern : List Byte}
    (proper : pattern ≠ []) (kind : request.pattern = some pattern) (byte : Byte)
    (mode : released.receiving = .recvTill) (handle : released.asyncCancel = true)
    (held : released.curAlloc = some request) (alone : released.queue = [])
    (room : 1 ≤ sizeSub released.size1 released.len1) :
    (released.tcpRecvCb1 [byte]).isSome := by
  have arrived : released.buf1 ++ [byte] ≠ [] := by simp
  obtain ⟨finished, rest, after, remains⟩ := remaining_total request arrived
  simp only [Connected.tcpRecvCb1, held, List.cons_ne_nil, if_false, kind, List.length_cons,
    List.length_nil]
  rw [if_neg (by omega), remains]
  cases finished with
  | true => rfl
  | false =>
      have short := remains_short (remaining_remains remains).2 (by rw [kind]; simpa using proper)
      rw [alone]
      exact checkRemaining_total ⟨rfl, short, mode, handle⟩

/-- `tcp_alloc_cb1` offers room for the next byte, unless the length of a fill request is cut
to nothing. -/
theorem read_byte (steady : Steady connection) (waiting : Waiting connection request)
    (idle : connection.standing = false) (byte : Byte)
    (narrow : request.pattern = none → request.left < 2 ^ 32)
    (small : ∀ pattern, request.pattern = some pattern → pattern.length ≤ 1024) :
    (step connection (.read [byte])).isSome := by
  have searching := steady.inOrder.searching request (by simp [waiting.queue])
  have room := searching.room
  have short := waiting.short
  simp only [step, idle, waiting.receiving, Bool.false_eq_true, ne_eq, not_true_eq_false,
    or_self, if_false]
  cases kind : request.pattern with
  | none =>
      simp only [Short, kind] at short
      have window : uvBufLen request.left = request.left := Nat.mod_eq_of_lt (narrow kind)
      have alloc : connection.tcpAllocCb1 = some
          ({ connection with curAlloc := some request, queue := [] }, request.left) := by
        simp only [Connected.tcpAllocCb1, steady.free, waiting.queue, kind, short, if_true, window]
      simp only [alloc, Option.bind_some, List.length_cons, List.length_nil]
      rw [if_neg (by omega)]
      exact tcpRecvCb1_fill waiting kind room byte rfl
  | some pattern =>
      simp only [Short, kind] at short
      have fits := small pattern kind
      have proper : pattern ≠ [] := fun empty => searching.pattern (by rw [kind, empty])
      have size : (if connection.allocated then connection.size1 else 1024) = 1024 := by
        split
        · exact steady.sized ‹_›
        · rfl
      have alloc : connection.tcpAllocCb1 = some
          ({ connection with
              curAlloc := some request, queue := [], allocated := true, size1 := 1024 },
            uvBufLen (sizeSub 1024 connection.len1)) := by
        simp only [Connected.tcpAllocCb1, steady.free, waiting.queue, kind, size]
      have left : sizeSub 1024 connection.len1 = 1024 - connection.buf1.length := by
        unfold sizeSub Connected.len1
        omega
      simp only [alloc, Option.bind_some, List.length_cons, List.length_nil]
      rw [left, if_neg (by unfold uvBufLen; omega)]
      refine tcpRecvCb1_pattern proper kind byte waiting.receiving waiting.handle rfl rfl ?_
      have same : sizeSub 1024 connection.len1 = 1024 - connection.buf1.length := left
      change 1 ≤ sizeSub 1024 connection.len1
      omega

end Read

section Frame

variable {connection next : Connected} {label : Label}

structure Frame (connection next : Connected) : Prop where
  curAlloc : next.curAlloc = connection.curAlloc
  size1 : next.size1 = connection.size1
  allocated : next.allocated = connection.allocated
  received : next.received = connection.received

theorem checkRemaining_frame (taken : connection.checkRemaining = some next) :
    Frame connection next := by
  rcases checkRemaining_cases taken with
    ⟨-, -, -, -, -, -, -, rfl⟩ | ⟨-, -, -, -, -, -, -, rfl⟩ | ⟨-, -, rfl⟩ | ⟨-, -, rfl⟩ <;>
  exact ⟨rfl, rfl, rfl, rfl⟩

theorem enqueue_frame {request : Request} (taken : connection.enqueue request = some next) :
    Frame connection next := by
  rcases enqueue_cases taken with ⟨-, rfl⟩ | ⟨-, rfl⟩ <;> exact ⟨rfl, rfl, rfl, rfl⟩

theorem issue_frame {capacity : Nat} {pattern : Option (List Byte)}
    (taken : step connection (.issue capacity pattern) = some next) :
    Frame connection next := by
  obtain ⟨request, -, ran⟩ := issue_cases taken
  rcases run_cases ran with ⟨rest, served, -, -, rfl⟩ | ⟨rest, waits, -, -, waiting⟩ | ⟨-, waiting⟩
  · exact ⟨rfl, rfl, rfl, rfl⟩
  · obtain ⟨free, size, owned, received⟩ := enqueue_frame waiting
    exact ⟨free, size, owned, received⟩
  · obtain ⟨free, size, owned, received⟩ := enqueue_frame waiting
    exact ⟨free, size, owned, received⟩

theorem back_frame (taken : step connection .back = some next) : Frame connection next := by
  obtain ⟨asyncPending, continues⟩ := resume_cases (Or.inr rfl) taken
  obtain ⟨free, size, owned, received⟩ := checkRemaining_frame continues
  exact ⟨free, size, owned, received⟩

theorem sized_frame (sized : Sized connection) (frame : Frame connection next) : Sized next := by
  unfold Sized
  rw [frame.size1, frame.allocated]
  exact sized

theorem tcpRecvCb1_frame {chunk : List Byte} (taken : connection.tcpRecvCb1 chunk = some next) :
    next.curAlloc = none ∧ next.size1 = connection.size1 ∧
      next.allocated = connection.allocated ∧ next.received = connection.received ++ chunk := by
  unfold Connected.tcpRecvCb1 at taken
  split at taken
  · cases taken
  · dsimp only at taken
    split at taken
    · cases taken
      exact ⟨rfl, rfl, rfl, rfl⟩
    · split at taken
      · split at taken
        · cases taken
        · split at taken
          · cases taken
            exact ⟨rfl, rfl, rfl, rfl⟩
          · obtain ⟨free, size, owned, received⟩ := checkRemaining_frame taken
            exact ⟨free, size, owned, received⟩
      · split at taken
        · cases taken
        · split at taken
          · cases taken
            exact ⟨rfl, rfl, rfl, rfl⟩
          · obtain ⟨free, size, owned, received⟩ := checkRemaining_frame taken
            exact ⟨free, size, owned, received⟩
          · cases taken

theorem tcpAllocCb1_frame {window : Nat} (sized : Sized connection)
    (taken : connection.tcpAllocCb1 = some (next, window)) :
    Sized next ∧ next.received = connection.received := by
  unfold Connected.tcpAllocCb1 at taken
  split at taken
  · split at taken
    · split at taken
      · cases taken
        exact ⟨sized, rfl⟩
      · cases taken
    · cases taken
      refine ⟨fun _ => ?_, rfl⟩
      dsimp only
      split
      · exact sized ‹_›
      · rfl
  · cases taken

theorem read_frame {chunk : List Byte} (sized : Sized connection)
    (taken : step connection (.read chunk) = some next) :
    next.curAlloc = none ∧ Sized next ∧ next.received = connection.received ++ chunk := by
  simp only [step] at taken
  split at taken
  · cases taken
  · obtain ⟨⟨allocated, window⟩, alloc, recv⟩ := Option.bind_eq_some_iff.mp taken
    dsimp only at recv
    split at recv
    · cases recv
    · obtain ⟨held, same⟩ := tcpAllocCb1_frame sized alloc
      obtain ⟨free, size, owned, received⟩ := tcpRecvCb1_frame recv
      refine ⟨free, ?_, by rw [received, same]⟩
      unfold Sized
      rw [size, owned]
      exact held

/-- The requests of the task: new ones, reads and the return of a `__task_stand`. -/
def Simple : Label → Prop
  | .issue _ _ | .read _ | .back => True
  | _ => False

theorem steady_step (steady : Steady connection) (simple : Simple label)
    (taken : step connection label = some next) :
    Steady next ∧ connection.received <+: next.received := by
  have kept : InOrder next := by
    refine inOrder_step connection label next steady.inOrder ?_ taken
    rintro id rfl
    exact simple
  cases label with
  | issue capacity pattern =>
      have frame := issue_frame taken
      exact ⟨⟨kept, frame.curAlloc.trans steady.free, sized_frame steady.sized frame⟩,
        by simp [frame.received]⟩
  | cancel id => exact simple.elim
  | read chunk =>
      obtain ⟨free, sized, received⟩ := read_frame steady.sized taken
      exact ⟨⟨kept, free, sized⟩, by rw [received]; exact List.prefix_append _ _⟩
  | fallback => exact simple.elim
  | back =>
      have frame := back_frame taken
      exact ⟨⟨kept, frame.curAlloc.trans steady.free, sized_frame steady.sized frame⟩,
        by simp [frame.received]⟩

theorem steady_new : Steady {} := ⟨inOrder_new, rfl, by simp [Sized]⟩

end Frame

section Work

/-- A quantity that grows with everything that a connection does. -/
def work (connection : Connected) : Nat :=
  connection.issued.length + connection.received.length + connection.completed.length +
    if connection.standing then 0 else 1

variable {connection next : Connected}

theorem checkRemaining_work (taken : connection.checkRemaining = some next) :
    connection.issued.length + connection.received.length + connection.completed.length + 1 ≤
      work next := by
  rcases checkRemaining_cases taken with
    ⟨-, -, -, -, -, -, -, rfl⟩ | ⟨-, -, -, -, -, -, -, rfl⟩ | ⟨-, -, rfl⟩ | ⟨-, -, rfl⟩
  · simp only [work, List.length_append, List.length_singleton, if_true]
    omega
  all_goals simp [work]

theorem issue_work {capacity : Nat} {pattern : Option (List Byte)}
    (taken : step connection (.issue capacity pattern) = some next) :
    work connection + 1 ≤ work next := by
  obtain ⟨request, -, ran⟩ := issue_cases taken
  rcases run_cases ran with ⟨rest, served, -, -, rfl⟩ | ⟨rest, waits, -, -, waiting⟩ | ⟨-, waiting⟩
  · simp only [work, List.length_append, List.length_singleton]
    omega
  all_goals
    rcases enqueue_cases waiting with ⟨-, rfl⟩ | ⟨-, rfl⟩
    all_goals
      simp only [work, List.length_append, List.length_singleton]
      omega

theorem back_work (taken : step connection .back = some next) :
    work connection + 1 ≤ work next := by
  simp only [step] at taken
  split at taken
  · rename_i standing
    have grown := checkRemaining_work taken
    simpa [work, standing] using grown
  · cases taken

theorem read_work {chunk : List Byte} (taken : step connection (.read chunk) = some next) :
    work connection + chunk.length ≤ work next := by
  obtain ⟨idle, -, -, head, others, size1, allocated, -, outcome⟩ := read_cases taken
  rcases outcome with ⟨rfl, -, rfl⟩ | ⟨-, -, -, rfl⟩ | ⟨-, -, -, continues⟩ |
    ⟨rest, done, -, -, rfl⟩ | ⟨rest, waits, -, -, continues⟩
  · simp [work]
  · simp only [work, idle, List.length_append, List.length_singleton, if_true]
    simp only [Bool.false_eq_true, if_false]
    omega
  · have grown := checkRemaining_work continues
    simp only [List.length_append] at grown
    simp only [work, idle, Bool.false_eq_true, if_false] at grown ⊢
    omega
  · simp only [work, idle, List.length_append, List.length_singleton, if_true]
    simp only [Bool.false_eq_true, if_false]
    omega
  · have grown := checkRemaining_work continues
    simp only [List.length_append] at grown
    simp only [work, idle, Bool.false_eq_true, if_false] at grown ⊢
    omega

end Work

section Supply

/-- The bytes that a request takes when they come. -/
def Supplied (capacity : Nat) (pattern : Option (List Byte)) (bytes stream : List Byte) : Prop :=
  bytes <+: stream ∧ match pattern with
  | none => bytes.length = capacity
  | some pattern => firstEnd pattern stream = some bytes.length ∧ bytes.length ≤ capacity

theorem supplied_oneShot {capacity : Nat} {pattern : Option (List Byte)}
    {bytes stream : List Byte} (supplied : Supplied capacity pattern bytes stream) :
    oneShot capacity pattern stream = some bytes := by
  obtain ⟨⟨rest, rfl⟩, ends⟩ := supplied
  cases pattern with
  | none =>
      have length : bytes.length = capacity := ends
      rw [oneShot_fill (by rw [List.length_append]; omega), ← length, List.take_left]
  | some pattern =>
      obtain ⟨found, fits⟩ := ends
      rw [oneShot_found found fits, List.take_left]

theorem oneShot_nonempty {capacity : Nat} {pattern : Option (List Byte)}
    {bytes stream : List Byte} (positive : 0 < capacity) (proper : pattern ≠ some [])
    (shot : oneShot capacity pattern stream = some bytes) : 0 < bytes.length := by
  unfold oneShot at shot
  split at shot
  · rename_i length found
    cases shot
    obtain ⟨searched, rfl, bounded⟩ := Option.bind_eq_some_iff.mp found
    obtain ⟨start, ends, inside, -, -⟩ := firstEnd_some.mp (firstEnd_take.mp bounded).2
    have symbols : 0 < searched.length := by
      rw [List.length_pos_iff]
      exact fun empty => proper (by rw [empty])
    rw [List.length_take]
    omega
  · split at shot
    · cases shot
      rw [List.length_take]
      omega
    · cases shot

variable {connection : Connected} {request : Request}

theorem waiting_unsupplied (steady : Steady connection) (waiting : Waiting connection request)
    (bytes : List Byte) : ¬Supplied request.capacity request.pattern bytes
      (connection.received.drop (connection.completed.flatMap Request.data).length) := by
  have searching := steady.inOrder.searching request (by simp [waiting.queue])
  have extent := searching.extent
  have room := searching.room
  have short := waiting.short
  rw [← head_balance steady.inOrder waiting.queue, List.drop_left]
  rintro ⟨start, ends⟩
  cases kind : request.pattern with
  | none =>
      simp only [Short, kind] at short
      simp only [kind] at ends
      have within := start.length_le
      rw [short, List.append_nil] at within
      omega
  | some pattern =>
      simp only [Short, kind] at short
      simp only [kind] at ends
      obtain ⟨position, stop, inside, occurs, -⟩ := firstEnd_some.mp ends.1
      rw [List.length_append] at inside
      have taken : position < request.data.length := by omega
      exact (searching.passed pattern kind position taken).2 occurs

theorem servedFrom_last {requests : List Request} {stream : List Byte}
    (served : ServedFrom (requests ++ [request]) stream) :
    oneShot request.capacity request.pattern
        (stream.drop (requests.flatMap Request.data).length) = some request.data ∧
      request.len = request.data.length := by
  induction requests generalizing stream with
  | nil => exact ⟨served.1, served.2.1⟩
  | cons first others ih =>
      obtain ⟨-, -, later⟩ := served
      have result := ih later
      rwa [List.drop_drop, ← List.length_append] at result

end Supply

end Cocoflow.SoleReceiver
