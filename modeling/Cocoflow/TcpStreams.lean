import Mathlib.Data.List.Nodup
import Mathlib.Logic.Function.Basic
import Cocoflow.LabelledRuns
import Cocoflow.PrimitiveTasks
import Cocoflow.PrimitiveLinks

/-!
`connect` and `send` tasks and the `connected` objects they work on (src/tcp.cc). libuv keeps
the request of a `uv_tcp_connect`, and those of the `uv_write`s in their order, with the socket
(deps/libuv-0.10.27.zip, stream.c). A socket that is closed answers them with `UV_ECANCELED`,
and the callbacks then leave the tasks alone.

A `connected` object and its socket have one number. The request of a `send` is on the stack of
its `run`; its record goes with its callback.
-/

namespace Cocoflow.TcpStreams

open LabelledRuns PrimitiveTasks PrimitiveLinks

inductive Kind where
  | connect | send
  deriving DecidableEq

inductive Ret where
  | success | unfinished | failure
  deriving DecidableEq

structure Operation where
  kind : Kind
  handle : Nat
  ret : Ret := .unfinished
  req : Option Nat := none
  deriving DecidableEq

structure Connected where
  established : Bool := false
  broken : Bool := false
  deriving DecidableEq

structure Sock where
  connectReq : Option Nat := none
  writeQueue : List Nat := []
  closing : Bool := false
  deriving DecidableEq

structure Streams where
  connecteds : Nat → Option Connected := fun _ => none
  socks : Nat → Option Sock := fun _ => none

inductive Parameters where
  | connect (handle : Nat)
  | send (handle : Nat) (lengths : List Nat)

/-- The status of a callback; the last one is `-1` with `UV_ECANCELED`. -/
inductive Status where
  | ok | failed | canceled
  deriving DecidableEq

/-- Which callback libuv calls, and for which socket. -/
structure Outcome where
  kind : Kind
  handle : Nat
  status : Status

/-- What else happens to a `connected`: it is constructed, destroyed, accepted by a `listening`,
or a read on it fails; and its socket is closed at last. -/
inductive Action where
  | create (handle : Nat)
  | destroy (handle : Nat)
  | accepted (handle : Nat)
  | readFailed (handle : Nat)
  | sockClosed (handle : Nat)

namespace Streams

def putConnected (streams : Streams) (handle : Nat) (connected : Option Connected) : Streams :=
  { streams with connecteds := Function.update streams.connecteds handle connected }

def putSock (streams : Streams) (handle : Nat) (sock : Option Sock) : Streams :=
  { streams with socks := Function.update streams.socks handle sock }

def breakOff (streams : Streams) (handle : Nat) : Option Streams :=
  (streams.connecteds handle).map fun connected =>
    streams.putConnected handle (some { connected with broken := true })

def establish (streams : Streams) (handle : Nat) : Option Streams :=
  match streams.connecteds handle with
  | none => none
  | some connected =>
      if connected.established then none
      else some (streams.putConnected handle (some { connected with established := true }))

def act (streams : Streams) : Action → Option Streams
  | .create handle =>
      match streams.socks handle with
      | some _ => none
      | none => some ((streams.putConnected handle (some {})).putSock handle (some {}))
  | .destroy handle =>
      match streams.connecteds handle, streams.socks handle with
      | some _, some sock =>
          some ((streams.putConnected handle none).putSock handle
            (some { sock with closing := true }))
      | _, _ => none
  | .accepted handle => streams.establish handle
  | .readFailed handle => streams.breakOff handle
  | .sockClosed handle =>
      match streams.socks handle with
      | none => none
      | some sock =>
          if sock.closing = true ∧ sock.connectReq = none ∧ sock.writeQueue = [] then
            some (streams.putSock handle none)
          else none

end Streams

namespace Operation

/-- The constructors and their `CHECK`s. A `send` takes one to four buffers. -/
def build (parameters : Parameters) (memory : Memory Streams) : Option Operation :=
  match parameters with
  | .connect handle =>
      (memory.extra.connecteds handle).map fun _ => { kind := .connect, handle := handle }
  | .send handle lengths =>
      match memory.extra.connecteds handle with
      | none => none
      | some connected =>
          if connected.established = true ∧ 0 < lengths.length ∧ lengths.length ≤ 4 ∧
              ∀ length ∈ lengths, 0 < length then
            some { kind := .send, handle := handle }
          else none

/-- `connect::run` and `send::run` up to their yield. `started` says that libuv has begun to
connect; it does not on a socket that connects already or is connected. -/
def run (task : Nat) (input : Nat × Bool) (object : Operation) (memory : Memory Streams) :
    Option (Operation × Memory Streams × Bool) :=
  let (place, started) := input
  match memory.extra.connecteds object.handle, memory.extra.socks object.handle with
  | some connected, some sock =>
      if connected.broken then none
      else (memory.allocate place task).bind fun memory =>
        let put (sock : Sock) : Memory Streams :=
          { memory with extra := memory.extra.putSock object.handle (some sock) }
        match object.kind with
        | .connect =>
            if sock.connectReq = none ∧ connected.established = false ∧ started = true then
              some ({ object with req := some place },
                put { sock with connectReq := some place }, true)
            else none
        | .send =>
            some ({ object with req := some place },
              put { sock with writeQueue := sock.writeQueue ++ [place] }, true)
  | _, _ => none

/-- `connect::cancel`, and `send::cancel`, which fails its `CHECK`. -/
def cancel (object : Operation) (memory : Memory Streams) :
    Option (Operation × Memory Streams) :=
  match object.kind, object.req with
  | .connect, some place =>
      (memory.extra.breakOff object.handle).bind fun streams =>
        (memory.clearData place).map fun memory => (object, { memory with extra := streams })
  | _, _ => none

def answer (object : Operation) (streams : Streams) : Status → Option (Streams × Operation)
  | .ok =>
      match object.kind with
      | .connect => (streams.establish object.handle).map fun streams =>
          (streams, { object with ret := .success })
      | .send => some (streams, { object with ret := .success })
  | .failed => (streams.breakOff object.handle).map fun streams =>
      (streams, { object with ret := .failure })
  | .canceled => none

/-- The callback takes the request off the socket: a connect request, or the first write. -/
def takeOff (sock : Sock) (place : Nat) : Kind → Option Sock
  | .connect => if sock.connectReq = some place then some { sock with connectReq := none } else none
  | .send =>
      match sock.writeQueue with
      | [] => none
      | first :: rest => if first = place then some { sock with writeQueue := rest } else none

/-- `tcp_connect_cb` and `tcp_send_cb`. Only a socket that is being closed cancels, and it has
no other answer to a connect request. -/
def streamCb (place : Nat) (outcome : Outcome) (objects : Nat → Option Operation)
    (memory : Memory Streams) : Option (Memory Streams × Option (Nat × Operation)) :=
  match memory.extra.socks outcome.handle, memory.requests place with
  | some sock, some request =>
      if request.phase ≠ .pending ∨ (outcome.status = .canceled ∧ sock.closing = false) ∨
          (outcome.kind = .connect ∧ sock.closing = true ∧ outcome.status ≠ .canceled) then none
      else (takeOff sock place outcome.kind).bind fun left =>
        let streams := memory.extra.putSock outcome.handle (some left)
        let called := memory.put place (some { request with phase := .called })
        if outcome.status = .canceled ∨ (outcome.kind = .connect ∧ request.data = none) then
          some ({ called with extra := streams }, none)
        else
          request.data.bind fun task => (objects task).bind fun object =>
            (object.answer streams outcome.status).map fun (streams, object) =>
              ({ called with extra := streams }, some (task, object))
  | _, _ => none

end Operation

def streaming : Primitive Operation Parameters (Nat × Bool) Outcome Action Streams where
  request := Operation.req
  build := Operation.build
  run := Operation.run
  back := fun object memory => some (object, memory)
  cancel := Operation.cancel
  callback := Operation.streamCb
  behind := fun place memory => memory.free place
  act := fun action memory =>
    (memory.extra.act action).map fun streams => { memory with extra := streams }

section Cases

variable {task place : Nat} {object after : Operation} {memory memory' : Memory Streams}
  {streams streams' : Streams}

theorem breakOff_cases {handle : Nat} (taken : streams.breakOff handle = some streams') :
    ∃ connected, streams.connecteds handle = some connected ∧
      streams' = streams.putConnected handle (some { connected with broken := true }) := by
  obtain ⟨connected, there, rfl⟩ := Option.map_eq_some_iff.mp taken
  exact ⟨connected, there, rfl⟩

theorem establish_cases {handle : Nat} (taken : streams.establish handle = some streams') :
    ∃ connected, streams.connecteds handle = some connected ∧ connected.established = false ∧
      streams' = streams.putConnected handle (some { connected with established := true }) := by
  unfold Streams.establish at taken
  split at taken
  · cases taken
  · rename_i connected there
    split at taken
    · cases taken
    · rename_i new
      cases taken
      exact ⟨connected, there, by simpa using new, rfl⟩

theorem run_cases {started yields : Bool}
    (taken : object.run task (place, started) memory = some (after, memory', yields)) :
    yields = true ∧ memory.requests place = none ∧ after = { object with req := some place } ∧
      memory'.requests = Function.update memory.requests place (some { data := some task }) ∧
      ∃ connected sock, memory.extra.connecteds object.handle = some connected ∧
        connected.broken = false ∧ memory.extra.socks object.handle = some sock ∧
        ((object.kind = .connect ∧ sock.connectReq = none ∧ connected.established = false ∧
          memory'.extra =
            memory.extra.putSock object.handle (some { sock with connectReq := some place })) ∨
        (object.kind = .send ∧ memory'.extra = memory.extra.putSock object.handle
          (some { sock with writeQueue := sock.writeQueue ++ [place] }))) := by
  unfold Operation.run at taken
  dsimp only at taken
  split at taken
  · rename_i connected sock there plugged
    split at taken
    · cases taken
    · rename_i whole
      obtain ⟨allocated, begun, taken⟩ := Option.bind_eq_some_iff.mp taken
      obtain ⟨free, rfl⟩ := allocate_cases begun
      split at taken
      · rename_i connects
        split at taken
        · rename_i fresh
          cases taken
          exact ⟨rfl, free, rfl, rfl, connected, sock, there, by simpa using whole, plugged,
            Or.inl ⟨connects, fresh.1, fresh.2.1, rfl⟩⟩
        · cases taken
      · rename_i sends
        cases taken
        exact ⟨rfl, free, rfl, rfl, connected, sock, there, by simpa using whole, plugged,
          Or.inr ⟨sends, rfl⟩⟩
  · cases taken

theorem cancel_cases (taken : object.cancel memory = some (after, memory')) :
    ∃ spot request connected, object.kind = .connect ∧ object.req = some spot ∧
      memory.requests spot = some request ∧ after = object ∧
      memory'.requests = Function.update memory.requests spot (some { request with data := none }) ∧
      memory.extra.connecteds object.handle = some connected ∧
      memory'.extra =
        memory.extra.putConnected object.handle (some { connected with broken := true }) := by
  unfold Operation.cancel at taken
  split at taken
  · rename_i spot connects own
    obtain ⟨broken, breaks, taken⟩ := Option.bind_eq_some_iff.mp taken
    obtain ⟨cleared, clears, taken⟩ := Option.map_eq_some_iff.mp taken
    obtain ⟨connected, there, rfl⟩ := breakOff_cases breaks
    obtain ⟨request, held, rfl⟩ := clearData_cases clears
    cases taken
    exact ⟨spot, request, connected, connects, own, held, rfl, rfl, there, rfl⟩
  · cases taken

theorem takeOff_cases {sock left : Sock} {kind : Kind}
    (taken : Operation.takeOff sock place kind = some left) :
    left.closing = sock.closing ∧
      ((kind = .connect ∧ sock.connectReq = some place ∧ left.connectReq = none ∧
          left.writeQueue = sock.writeQueue) ∨
        (kind = .send ∧ left.connectReq = sock.connectReq ∧
          sock.writeQueue = place :: left.writeQueue)) := by
  cases kind with
  | connect =>
      simp only [Operation.takeOff] at taken
      split at taken
      · rename_i own
        cases taken
        exact ⟨rfl, Or.inl ⟨rfl, own, rfl, rfl⟩⟩
      · cases taken
  | send =>
      simp only [Operation.takeOff] at taken
      split at taken
      · cases taken
      · rename_i first rest queue
        split at taken
        · rename_i own
          cases taken
          exact ⟨rfl, Or.inr ⟨rfl, rfl, by rw [queue, own]⟩⟩
        · cases taken

theorem streamCb_cases {outcome : Outcome} {objects : Nat → Option Operation}
    {stands : Option (Nat × Operation)}
    (called : Operation.streamCb place outcome objects memory = some (memory', stands)) :
    ∃ sock request left, memory.extra.socks outcome.handle = some sock ∧
      memory.requests place = some request ∧ request.phase = .pending ∧
      (outcome.status = .canceled → sock.closing = true) ∧
      Operation.takeOff sock place outcome.kind = some left ∧
      memory'.requests =
        Function.update memory.requests place (some { request with phase := .called }) ∧
      ((stands = none ∧ memory'.extra = memory.extra.putSock outcome.handle (some left) ∧
          (outcome.status = .canceled ∨ request.data = none)) ∨
        ∃ task object after, request.data = some task ∧ objects task = some object ∧
          outcome.status ≠ .canceled ∧ stands = some (task, after) ∧
          object.answer (memory.extra.putSock outcome.handle (some left)) outcome.status =
            some (memory'.extra, after)) := by
  unfold Operation.streamCb at called
  split at called
  · rename_i sock request plugged there
    split at called
    · cases called
    · rename_i open_
      simp only [not_or, not_and, not_not] at open_
      obtain ⟨pending, closes, -⟩ := open_
      obtain ⟨left, taken, called⟩ := Option.bind_eq_some_iff.mp called
      refine ⟨sock, request, left, plugged, there, pending, by simpa using closes, taken, ?_⟩
      dsimp only at called
      split at called
      · rename_i silent
        cases called
        exact ⟨rfl, Or.inl ⟨rfl, rfl, silent.imp_right And.right⟩⟩
      · rename_i told
        obtain ⟨task, names, called⟩ := Option.bind_eq_some_iff.mp called
        obtain ⟨object, shown, called⟩ := Option.bind_eq_some_iff.mp called
        obtain ⟨⟨streams, after⟩, answered, called⟩ := Option.map_eq_some_iff.mp called
        cases called
        exact ⟨rfl, Or.inr ⟨task, object, after, names, shown, fun canceled =>
          told (Or.inl canceled), rfl, answered⟩⟩
  · cases called

theorem answer_cases {status : Status}
    (answered : object.answer streams status = some (streams', after)) :
    after.kind = object.kind ∧ after.handle = object.handle ∧ after.req = object.req ∧
      ((status = .ok ∧ after.ret = .success ∧ object.kind = .connect ∧ ∃ connected,
          streams.connecteds object.handle = some connected ∧ connected.established = false ∧
          streams' =
            streams.putConnected object.handle (some { connected with established := true })) ∨
        (status = .ok ∧ after.ret = .success ∧ object.kind = .send ∧ streams' = streams) ∨
        (status = .failed ∧ after.ret = .failure ∧ ∃ connected,
          streams.connecteds object.handle = some connected ∧ streams' =
            streams.putConnected object.handle (some { connected with broken := true }))) := by
  cases status with
  | ok =>
      simp only [Operation.answer] at answered
      split at answered
      · rename_i connects
        obtain ⟨established, sets, same⟩ := Option.map_eq_some_iff.mp answered
        obtain ⟨connected, there, new, rfl⟩ := establish_cases sets
        cases same
        exact ⟨rfl, rfl, rfl, Or.inl ⟨rfl, rfl, connects, connected, there, new, rfl⟩⟩
      · rename_i sends
        cases answered
        exact ⟨rfl, rfl, rfl, Or.inr (Or.inl ⟨rfl, rfl, sends, rfl⟩)⟩
  | failed =>
      obtain ⟨broken, breaks, same⟩ := Option.map_eq_some_iff.mp answered
      obtain ⟨connected, there, rfl⟩ := breakOff_cases breaks
      cases same
      exact ⟨rfl, rfl, rfl, Or.inr (Or.inr ⟨rfl, rfl, connected, there, rfl⟩)⟩
  | canceled => cases answered

/-- An answer that a socket gives when it is closed. -/
def dropped (outcome : Outcome) : Bool := outcome.status = .canceled

theorem streaming_lawful : Lawful streaming dropped where
  run task input object memory after memory' yields taken := by
    obtain ⟨place, started⟩ := input
    obtain ⟨rfl, free, rfl, requests, -⟩ := run_cases taken
    exact ⟨place, rfl, free, requests⟩
  back object memory after memory' place found _ there called taken := by
    cases taken
    refine ⟨found, by simp [called], ?_⟩
    rw [← there, Function.update_eq_self]
  cancel object memory after memory' place own taken := by
    obtain ⟨spot, request, connected, -, asks, -, -, requests, -⟩ := cancel_cases taken
    have same : spot = place := Option.some.inj (asks.symm.trans own)
    subst same
    exact ⟨_, by simp [Loose], requests⟩
  callback place outcome objects memory memory' stands called := by
    obtain ⟨sock, request, left, -, there, pending, -, -, requests, cases⟩ := streamCb_cases called
    refine ⟨request, there, pending, requests, ?_⟩
    rcases cases with ⟨rfl, -, silent⟩ | ⟨task, object, after, names, shown, -, rfl, answered⟩
    · exact ⟨fun _ => silent.symm.imp_right (by simp [dropped]), by simp⟩
    · refine ⟨by simp, ?_⟩
      rintro owner last same
      cases same
      exact ⟨names, object, shown, (answer_cases answered).2.2.1⟩
  behind place memory memory' taken := Or.inr (by rw [free_cases taken]; rfl)
  act action memory memory' taken := by
    obtain ⟨streams, -, rfl⟩ := Option.map_eq_some_iff.mp taken
    rfl

theorem streaming_oneTime : OneTime streaming where
  back object memory after memory' taken := by
    cases taken
    rfl
  cancel object memory after memory' place found own there taken := by
    obtain ⟨spot, request, connected, -, asks, held, -, requests, -⟩ := cancel_cases taken
    have same : spot = place := Option.some.inj (asks.symm.trans own)
    subst same
    rw [there] at held
    cases held
    exact requests
  behind place memory memory' taken := by
    rw [free_cases taken]
    rfl

end Cases

def answers : Contract Operation Streams where
  holds := fun _ => True
  fresh := fun object => object.ret = .unfinished
  waits := fun object => object.ret = .unfinished
  told := fun object => object.ret ≠ .unfinished
  ended := fun object => object.ret ≠ .unfinished
  cut := fun object => object.ret = .unfinished

theorem answers_met : Meets streaming answers where
  build parameters memory object _ built := by
    cases parameters with
    | connect handle =>
        obtain ⟨connected, -, rfl⟩ := Option.map_eq_some_iff.mp built
        rfl
    | send handle lengths =>
        simp only [streaming, Operation.build] at built
        split at built
        · cases built
        · split at built
          · cases built
            rfl
          · cases built
  run task input object memory after memory' yields _ fresh taken := by
    obtain ⟨place, started⟩ := input
    obtain ⟨rfl, -, rfl, -⟩ := run_cases taken
    exact ⟨trivial, fresh⟩
  callback place outcome objects memory memory' stands _ called := by
    obtain ⟨sock, request, left, -, -, -, -, -, -, cases⟩ := streamCb_cases called
    refine ⟨trivial, fun task object after same known waits => ?_⟩
    rcases cases with ⟨rfl, -⟩ | ⟨owner, found, last, -, shown, -, rfl, answered⟩
    · cases same
    · cases same
      obtain ⟨-, -, -, ⟨-, success, -⟩ | ⟨-, success, -⟩ | ⟨-, failure, -⟩⟩ := answer_cases answered
      · exact fun open_ => by rw [success] at open_; cases open_
      · exact fun open_ => by rw [success] at open_; cases open_
      · exact fun open_ => by rw [failure] at open_; cases open_
  back object memory after memory' _ told taken := by
    cases taken
    exact ⟨trivial, told⟩
  cancel object memory after memory' _ waits taken := by
    obtain ⟨spot, request, connected, -, -, -, rfl, -⟩ := cancel_cases taken
    exact ⟨trivial, waits⟩
  behind _ _ _ _ _ := trivial
  act _ _ _ _ _ := trivial

end Cocoflow.TcpStreams
