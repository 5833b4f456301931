import Mathlib.Data.List.Basic
import Cocoflow.LabelledRuns
import Cocoflow.TcpConnection
import Cocoflow.FirstMatch
import Cocoflow.RecvTill
import Cocoflow.ByteConservation
import Cocoflow.OneShotReceive
import Cocoflow.SoleReceiver
import Cocoflow.HttpResponse
import Cocoflow.HttpHead
import Cocoflow.HttpClient
import Cocoflow.HttpBody

/-!
`__recv` of the HTTP client together with the connection it reads from. The client issues one
`recv_till` after the other; the bytes of the response come in reads of any size that fits the
offered window. The pair refines the client of `HttpClient`, whose `recv_till` gets its bytes
from the whole stream at once, and it takes at most three steps for a byte.
-/

namespace Cocoflow.HttpTransfer

open LabelledRuns TcpConnection FirstMatch RecvTill ByteConservation OneShotReceive SoleReceiver
  HttpResponse HttpHead HttpClient HttpBody

/-- The client and its connection. `running` says that control is in the client, between two
of its awaits. -/
structure Transfer where
  client : Client
  connection : Connected
  running : Bool
  deriving DecidableEq

/-- `go` is the client's next `recv_till`, `read` a readable event and `back` the return of a
`__task_stand`. -/
inductive Label where
  | go
  | read (chunk : List Byte)
  | back
  deriving DecidableEq

namespace Transfer

/-- The client goes on when its request is completed, and waits otherwise. -/
def advance (transfer : Transfer) (after : Connected) : Option Transfer :=
  if after.completed.length = transfer.connection.completed.length then
    some { transfer with connection := after, running := false }
  else after.completed.getLast?.bind fun request =>
    (transfer.client.received (request.data.take request.len)).map fun client =>
      { client := client, connection := after, running := decide (client.phase ≠ .ended) }

end Transfer

def step (transfer : Transfer) : Label → Option Transfer
  | .go =>
      if transfer.running then
        transfer.client.request.bind fun (capacity, pattern) =>
          (RecvTill.step transfer.connection (.issue capacity pattern)).bind transfer.advance
      else none
  | .read chunk =>
      if transfer.running then none
      else (RecvTill.step transfer.connection (.read chunk)).bind transfer.advance
  | .back =>
      if transfer.running then none
      else (RecvTill.step transfer.connection .back).bind transfer.advance

def start (posting : Bool) (len : Nat) : Transfer where
  client := { phase := .head, posting := posting, len := len }
  connection := {}
  running := true

def consumed (connection : Connected) : Nat :=
  (connection.completed.flatMap Request.data).length

/-- The client in front of the bytes of a stream that no request has taken. -/
def view (stream : List Byte) (transfer : Transfer) : Session where
  client := transfer.client
  stream := stream.drop (consumed transfer.connection)

/-- The client has no request exactly when it runs or has ended. -/
inductive Control (transfer : Transfer) : Prop
  | waits (request : Request) (idle : transfer.running = false)
      (asked : transfer.client.request = some (request.capacity, request.pattern))
      (waiting : Waiting transfer.connection request)
  | runs (own : transfer.running = decide (transfer.client.phase ≠ .ended))
      (vacant : Vacant transfer.connection)

structure Serving (transfer : Transfer) : Prop where
  steady : Steady transfer.connection
  control : Control transfer
  counted : transfer.connection.completed.length ≤ consumed transfer.connection

/-- What a step of the pair is for the client in front of the stream. -/
def Matched (stream : List Byte) (transfer next : Transfer) : Prop :=
  view stream next = view stream transfer ∨
    HttpClient.step (view stream transfer) .received = some (view stream next)

section Refinement

variable {transfer next : Transfer} {stream : List Byte} {request : Request} {after : Connected}

theorem served_arrives {done : Request} (steady : Steady after)
    (asked : transfer.client.request = some (request.capacity, request.pattern))
    (same : key done = key request) (positive : 0 < request.capacity)
    (history : after.completed = transfer.connection.completed ++ [done])
    (read : after.received <+: stream) :
    arriving (view stream transfer) = some done.data ∧ done.len = done.data.length := by
  have served := steady.inOrder.served
  rw [history] at served
  obtain ⟨more, rfl⟩ := read
  obtain ⟨shot, length⟩ := servedFrom_last (servedFrom_append more served)
  have capacity : done.capacity = request.capacity := congrArg (·.2.1) same
  have pattern : done.pattern = request.pattern := congrArg (·.2.2) same
  rw [capacity, pattern] at shot
  refine ⟨?_, length⟩
  simp only [arriving, view, asked, Option.bind_some]
  rw [if_neg (by omega)]
  exact shot

theorem advance_served {done : Request}
    (history : after.completed = transfer.connection.completed ++ [done])
    (length : done.len = done.data.length) :
    transfer.advance after = (transfer.client.received done.data).map fun client =>
      { client := client, connection := after, running := decide (client.phase ≠ .ended) } := by
  have longer : after.completed.length ≠ transfer.connection.completed.length := by
    simp [history]
  unfold Transfer.advance
  rw [if_neg longer]
  simp [history, length]

theorem advance_waiting (history : after.completed = transfer.connection.completed) :
    transfer.advance after = some { transfer with connection := after, running := false } := by
  simp [Transfer.advance, history]

theorem arriving_nonempty {session : Session} {bytes : List Byte}
    (asked : session.client.request = some (request.capacity, request.pattern))
    (proper : request.pattern ≠ some []) (arrives : arriving session = some bytes) :
    0 < bytes.length := by
  simp only [arriving, asked, Option.bind_some] at arrives
  split at arrives
  · cases arrives
  · exact oneShot_nonempty (by omega) proper arrives

theorem advance_outcome (serving : Serving transfer) (steady : Steady after)
    (asked : transfer.client.request = some (request.capacity, request.pattern))
    (positive : 0 < request.capacity) (proper : request.pattern ≠ some [])
    (outcome : Outcome request transfer.connection.completed after)
    (read : after.received <+: stream) (taken : transfer.advance after = some next) :
    Serving next ∧ Matched stream transfer next := by
  cases outcome with
  | served done same history vacant =>
      obtain ⟨arrives, length⟩ := served_arrives steady asked same positive history read
      rw [advance_served history length] at taken
      obtain ⟨client, got, rfl⟩ := Option.map_eq_some_iff.mp taken
      have count : consumed after = consumed transfer.connection + done.data.length := by
        simp [consumed, history]
      refine ⟨⟨steady, .runs rfl vacant, ?_⟩, Or.inr ?_⟩
      · have some_ := arriving_nonempty asked proper arrives
        have before := serving.counted
        dsimp only
        rw [count, history, List.length_append, List.length_singleton]
        omega
      · have got_ : (view stream transfer).client.received done.data = some client := got
        simp only [HttpClient.step, arrives, got_, Option.bind_some, Option.map_some]
        simp only [view, List.drop_drop, count]
  | waiting waits same history waiting =>
      rw [advance_waiting history] at taken
      cases taken
      have capacity : waits.capacity = request.capacity := congrArg (·.2.1) same
      have pattern : waits.pattern = request.pattern := congrArg (·.2.2) same
      refine ⟨⟨steady, .waits waits rfl ?_ waiting, ?_⟩, Or.inl ?_⟩
      · rw [capacity, pattern]
        exact asked
      · simpa only [consumed, history] using serving.counted
      · simp only [view, consumed, history]

theorem waits_positive (steady : Steady transfer.connection)
    (waiting : Waiting transfer.connection request) : 0 < request.capacity := by
  have searching := steady.inOrder.searching request (by simp [waiting.queue])
  have extent := searching.extent
  have room := searching.room
  omega

theorem advance_connection (taken : transfer.advance after = some next) :
    next.connection = after := by
  unfold Transfer.advance at taken
  split at taken
  · cases taken
    rfl
  · obtain ⟨request, -, rest⟩ := Option.bind_eq_some_iff.mp taken
    obtain ⟨client, -, rfl⟩ := Option.map_eq_some_iff.mp rest
    rfl

theorem serving_back (serving : Serving transfer) (idle : transfer.running = false)
    (stepped : RecvTill.step transfer.connection .back = some after)
    (taken : transfer.advance after = some next) :
    Serving next ∧ view stream next = view stream transfer := by
  obtain ⟨steady, -⟩ := steady_step serving.steady (show Simple .back from trivial) stepped
  have standing : transfer.connection.standing = true := by
    by_contra stopped
    simp [RecvTill.step, stopped] at stepped
  cases serving.control with
  | waits request _ asked waiting =>
      obtain ⟨other, same, kept, history⟩ := back_waiting waiting standing
      rw [stepped] at same
      cases same
      rw [advance_waiting history] at taken
      cases taken
      refine ⟨⟨steady, .waits request rfl asked kept, ?_⟩, by simp only [view, consumed, history]⟩
      simpa only [consumed, history] using serving.counted
  | runs own vacant =>
      obtain ⟨other, same, kept, history⟩ := back_vacant vacant standing
      rw [stepped] at same
      cases same
      rw [advance_waiting history] at taken
      cases taken
      refine ⟨⟨steady, .runs ?_ kept, ?_⟩, by simp only [view, consumed, history]⟩
      · rw [← idle]
        exact own
      · simpa only [consumed, history] using serving.counted

/-- One step of the pair is nothing or one `recv_till` for the client in front of the
stream. -/
theorem serving_step (serving : Serving transfer) (label : Label)
    (taken : step transfer label = some next) (read : next.connection.received <+: stream) :
    Serving next ∧ Matched stream transfer next ∧
      transfer.connection.received <+: next.connection.received := by
  cases label with
  | go =>
      simp only [step] at taken
      split at taken
      · rename_i running
        obtain ⟨⟨capacity, pattern⟩, asked, rest⟩ := Option.bind_eq_some_iff.mp taken
        obtain ⟨after, issued, advanced⟩ := Option.bind_eq_some_iff.mp rest
        obtain rfl := advance_connection advanced
        obtain ⟨steady, grown⟩ := steady_step serving.steady (show Simple (.issue _ _) from trivial)
          issued
        cases serving.control with
        | waits request idle => rw [idle] at running; cases running
        | runs own vacant =>
            obtain ⟨made, new, -⟩ := issue_cases issued
            obtain ⟨positive, proper, -⟩ := new_request new
            obtain ⟨request, other, rfl, rfl, same, outcome⟩ := issue_vacant vacant positive proper
            rw [issued] at same
            cases same
            obtain ⟨kept, matched⟩ := advance_outcome serving steady asked positive proper outcome
              read advanced
            exact ⟨kept, matched, grown⟩
      · cases taken
  | read chunk =>
      simp only [step] at taken
      split at taken
      · cases taken
      · rename_i idle
        obtain ⟨after, stepped, advanced⟩ := Option.bind_eq_some_iff.mp taken
        obtain rfl := advance_connection advanced
        obtain ⟨steady, grown⟩ := steady_step serving.steady (show Simple (.read _) from trivial)
          stepped
        cases serving.control with
        | waits request _ asked waiting =>
            have outcome := read_waiting serving.steady.inOrder waiting stepped
            have searching := serving.steady.inOrder.searching request (by simp [waiting.queue])
            obtain ⟨kept, matched⟩ := advance_outcome serving steady asked
              (waits_positive serving.steady waiting) searching.pattern outcome read advanced
            exact ⟨kept, matched, grown⟩
        | runs own vacant =>
            obtain ⟨standing, mode, -⟩ := read_cases stepped
            -- without a request nothing is read
            rw [vacant.stopped standing] at mode
            cases mode
  | back =>
      simp only [step] at taken
      split at taken
      · cases taken
      · rename_i idle
        obtain ⟨after, stepped, advanced⟩ := Option.bind_eq_some_iff.mp taken
        obtain rfl := advance_connection advanced
        obtain ⟨-, grown⟩ := steady_step serving.steady (show Simple .back from trivial) stepped
        obtain ⟨kept, same⟩ := serving_back serving (by simpa using idle) stepped advanced
        exact ⟨kept, Or.inl same, grown⟩

theorem serving_start (posting : Bool) (len : Nat) : Serving (start posting len) :=
  ⟨steady_new, .runs rfl ⟨rfl, by simp [start], by simp [start]⟩, Nat.le_refl _⟩

end Refinement

section Length

variable {transfer next : Transfer}

def active (label : Label) : Bool := label ≠ .read []

theorem step_work (label : Label) (taken : step transfer label = some next) :
    work transfer.connection + (if active label then 1 else 0) ≤ work next.connection := by
  cases label with
  | go =>
      simp only [step] at taken
      split at taken
      · obtain ⟨⟨capacity, pattern⟩, -, rest⟩ := Option.bind_eq_some_iff.mp taken
        obtain ⟨after, issued, advanced⟩ := Option.bind_eq_some_iff.mp rest
        rw [advance_connection advanced]
        exact issue_work issued
      · cases taken
  | read chunk =>
      simp only [step] at taken
      split at taken
      · cases taken
      · obtain ⟨after, stepped, advanced⟩ := Option.bind_eq_some_iff.mp taken
        rw [advance_connection advanced]
        have grown := read_work stepped
        cases chunk with
        | nil => simpa [active] using grown
        | cons byte rest =>
            simp only [List.length_cons] at grown
            split <;> omega
  | back =>
      simp only [step] at taken
      split at taken
      · cases taken
      · obtain ⟨after, stepped, advanced⟩ := Option.bind_eq_some_iff.mp taken
        rw [advance_connection advanced]
        exact back_work stepped

theorem serving_work (serving : Serving transfer) :
    work transfer.connection ≤ 3 * transfer.connection.received.length + 2 := by
  have balanced := serving.steady.inOrder.conserved.balanced
  have counted := serving.counted
  have keys := congrArg List.length serving.steady.inOrder.keys
  simp only [List.length_map, List.length_append] at keys
  have held : consumed transfer.connection ≤ transfer.connection.received.length := by
    unfold ByteConservation.Balanced at balanced
    rw [← balanced]
    simp only [List.length_append, consumed]
    omega
  have alone : transfer.connection.queue.length ≤ 1 := by
    cases serving.control with
    | waits request _ _ waiting => simp [waiting.queue]
    | runs _ vacant => simp [vacant.queue]
  unfold work
  split <;> omega

theorem run_length {posting : Bool} {len : Nat} {labels : List Label}
    (serving : Serving transfer) (run : replay step (start posting len) labels = some transfer) :
    labels.countP active ≤ 3 * transfer.connection.received.length + 1 := by
  have counts := replay_counts (fun transfer => work transfer.connection) active
    (fun _ label _ taken => step_work label taken) run
  have bound := serving_work serving
  have first : work (start posting len).connection = 1 := rfl
  omega

end Length

end Cocoflow.HttpTransfer
