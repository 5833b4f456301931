import Mathlib.Data.List.Basic
import Mathlib.Order.Defs.Unbundled
import Cocoflow.LabelledRuns
import Cocoflow.StableMultimap
import Cocoflow.TcpConnection
import Cocoflow.Sequencer

/-!
A `udp` object (src/udp.cc). `reading` is what libuv knows: the callbacks given to the last
`uv_udp_recv_start` that was not stopped; `receiving` is what the object believes. A callback
resumes a receiver in the middle, so between the resumption and the rest of the callback any
statements of the application may run; `standing` says which callback is waiting to go on.
A failed `CHECK` has no next state.

`waiting` holds the suspended `recv_by_seq` tasks with their keys in the order of their
registration, and `fates` how each nonempty datagram ended; neither influences the steps
apart from telling a cancelled task its key.
-/

namespace Cocoflow.UdpSocket

open LabelledRuns StableMultimap TcpConnection Sequencer

universe u

inductive Receiving where
  | ready | recv | recvBySeq | ignore
  deriving DecidableEq

/-- The pairs `udp_alloc_cb0`/`udp_recv_cb0` to `udp_alloc_cb2`/`udp_recv_cb2`. -/
inductive Callbacks where
  | cb0 | cb1 | cb2
  deriving DecidableEq

/-- An address by its family; of an unknown family only the family is stored. -/
inductive SockAddr where
  | inet (address : List Byte)
  | inet6 (address : List Byte)
  | other (family : UInt16)
  deriving DecidableEq

/-- What a resumed receiver finds: `len`, the bytes in `buf`, the address of the peer, and
the bytes that `internal_buffer` shows. -/
structure Delivery where
  receiver : Nat
  len : Nat
  copied : List Byte
  addr : SockAddr
  visible : List Byte
  deriving DecidableEq

inductive Standing where
  | plain | bySeq
  deriving DecidableEq

def routingBufSize : Nat := 65536

def Offers (receiver : Receiver) : Prop := receiver.buf = true ∧ receiver.len ≠ 0

instance (receiver : Receiver) : Decidable (Offers receiver) :=
  inferInstanceAs (Decidable (receiver.buf = true ∧ receiver.len ≠ 0))

def udpAllocCb0 (receiver : Receiver) : Nat :=
  if Offers receiver then uvBufLen receiver.len else routingBufSize

/-- What `udp_recv_cb0` leaves in the receiver. `routing_len` is set after `len`, so only a
missing `buf` makes `internal_buffer` show anything. -/
def filled (receiver : Receiver) (read : List Byte) (addr : SockAddr) : Delivery where
  receiver := receiver.id
  len := read.length
  copied := if Offers receiver then read else []
  addr := addr
  visible := if receiver.buf = false then read else []

def routed (receiver : Receiver) (packet : List Byte) (addr : SockAddr) : Delivery where
  receiver := receiver.id
  len := (receiver.copyOut packet).1
  copied := (receiver.copyOut packet).2
  addr := addr
  visible := packet

structure Udp (Seq : Type u) where
  receiving : Receiving := .ready
  reading : Option Callbacks := none
  seqer : Option (Seqer Seq Receiver) := none
  cUnrecv : Nat := 0
  cFailed : Nat := 0
  cIgnored : Nat := 0
  recvQueue : List Receiver := []
  waiting : List (Seq × Receiver) := []
  standing : Option Standing := none
  next : Nat := 0
  fates : List (Fate Seq Delivery) := []

namespace Udp

variable {Seq : Type u}

/-- `uv_udp_recv_start` refuses a handle that is already read. -/
def recvStart (socket : Udp Seq) (receiving : Receiving) (callbacks : Callbacks) :
    Option (Udp Seq) :=
  if socket.reading = none then
    some { socket with receiving := receiving, reading := some callbacks }
  else none

def recvStop (socket : Udp Seq) : Udp Seq :=
  { socket with receiving := .ready, reading := none }

/-- `udp::bind` with a getter; `-1` if there is a sequencer already. -/
def bindSeqer [Inhabited Seq] (socket : Udp Seq) : Udp Seq :=
  if socket.seqer.isSome then socket
  else { socket with seqer := some { curSeq := default } }

def ignoreRecv (socket : Udp Seq) : Option (Udp Seq) :=
  if socket.receiving = .ready then socket.recvStart .ignore .cb2 else none

def recvRun (socket : Udp Seq) (buf : Bool) (len : Nat) : Option (Udp Seq) :=
  if socket.receiving = .ignore then none
  else
    let started :=
      if socket.receiving = .ready then
        match socket.seqer with
        | none => socket.recvStart .recv .cb0
        | some _ => socket.recvStart .recvBySeq .cb1
      else some socket
    started.map fun socket => { socket with
      recvQueue := socket.recvQueue ++ [{ id := socket.next, buf := buf, len := len }]
      next := socket.next + 1 }

def recvCancel (socket : Udp Seq) (id : Nat) : Option (Udp Seq) :=
  if ∃ receiver ∈ socket.recvQueue, receiver.id = id then
    let left := { socket with recvQueue := socket.recvQueue.filter fun other => other.id ≠ id }
    if left.receiving = .recv ∧ left.recvQueue = [] then some left.recvStop else some left
  else none

variable (less : Seq → Seq → Prop) [DecidableRel less] (getter : SeqGetter Seq)

/-- `recv_by_seq::run` up to its yield; its constructor has checked that there is a
sequencer. -/
def recvBySeqRun (socket : Udp Seq) (seq : Seq) (buf : Bool) (len : Nat) : Option (Udp Seq) :=
  match socket.seqer with
  | none => none
  | some seqer =>
      if socket.receiving = .ignore then none
      else
        let started :=
          if socket.receiving = .ready then socket.recvStart .recvBySeq .cb1 else some socket
        let receiver : Receiver := { id := socket.next, buf := buf, len := len }
        started.map fun socket => { socket with
          seqer := some (seqer.insert less seq receiver)
          waiting := socket.waiting ++ [(seq, receiver)]
          next := socket.next + 1 }

def recvBySeqCancel (socket : Udp Seq) (id : Nat) : Option (Udp Seq) :=
  match socket.waiting.find? fun entry => entry.2.id = id, socket.seqer with
  | some entry, some seqer => some { socket with
      seqer := some (seqer.erase less entry.1)
      waiting := socket.waiting.filter fun other => other.2.id ≠ id }
  | _, _ => none

/-- `udp_alloc_cb0`, the read into the window it offers, and `udp_recv_cb0` up to the end of
`__task_stand`. libuv calls both for one datagram, so `cur_alloc` is the head of the queue in
between, and a read of nothing puts it back. -/
def udpRecvCb0 (socket : Udp Seq) (bytes : List Byte) (addr : SockAddr) : Option (Udp Seq) :=
  match socket.recvQueue with
  | [] => none
  | receiver :: rest =>
      let nread := min bytes.length (udpAllocCb0 receiver)
      if nread = 0 then some socket
      else some { socket with
        recvQueue := rest
        standing := some .plain
        fates := socket.fates ++ [.recv (filled receiver (bytes.take nread) addr)] }

def udpRecvCb0Back (socket : Udp Seq) : Udp Seq :=
  let back := { socket with standing := none }
  if back.recvQueue = [] then back.recvStop else back

/-- `udp_alloc_cb1`, the read into `routing_buf`, and `udp_recv_cb1` up to the end of
`__task_stand`; the rest of the callback only clears `routing_len`. -/
def udpRecvCb1 (socket : Udp Seq) (bytes : List Byte) (addr : SockAddr) : Option (Udp Seq) :=
  let packet := bytes.take routingBufSize
  if packet = [] then some socket
  else match socket.seqer with
  | none => none
  | some seqer =>
      let unwrapped := seqer.unwrap less getter packet
      let ret := unwrapped.1
      let taken : Udp Seq := { socket with seqer := some unwrapped.2.2 }
      match unwrapped.2.1 with
      | some rbs => some { taken with
          waiting := taken.waiting.filter fun entry => entry.2.id ≠ rbs.id
          standing := some .bySeq
          fates := taken.fates ++ [.bySeq (routed rbs packet addr)] }
      | none =>
          match taken.recvQueue with
          | [] =>
              if 0 ≤ ret then some { taken with
                cUnrecv := taken.cUnrecv + 1
                fates := taken.fates ++ [.unrecv unwrapped.2.2.curSeq] }
              else some { taken with
                cFailed := taken.cFailed + 1
                fates := taken.fates ++ [.failed ret] }
          | receiver :: rest => some { taken with
              recvQueue := rest
              standing := some .bySeq
              fates := taken.fates ++ [.recv (routed receiver packet addr)] }

end Udp

inductive Label (Seq : Type u) where
  | bindSeqer
  | ignoreRecv
  | recv (buf : Bool) (len : Nat)
  | recvBySeq (seq : Seq) (buf : Bool) (len : Nat)
  | cancelRecv (id : Nat)
  | cancelBySeq (id : Nat)
  | datagram (bytes : List Byte) (addr : SockAddr)
  | back

section Steps

variable {Seq : Type u} [Inhabited Seq] (less : Seq → Seq → Prop) [DecidableRel less]
  (getter : SeqGetter Seq)

/-- A callback starts only when no other one is waiting to go on. -/
def step (socket : Udp Seq) : Label Seq → Option (Udp Seq)
  | .bindSeqer => some socket.bindSeqer
  | .ignoreRecv => socket.ignoreRecv
  | .recv buf len => socket.recvRun buf len
  | .recvBySeq seq buf len => socket.recvBySeqRun less seq buf len
  | .cancelRecv id => socket.recvCancel id
  | .cancelBySeq id => socket.recvBySeqCancel less id
  | .datagram bytes addr =>
      if socket.standing ≠ none then none
      else match socket.reading with
      | none => none
      | some .cb0 => socket.udpRecvCb0 bytes addr
      | some .cb1 => socket.udpRecvCb1 less getter bytes addr
      | some .cb2 =>
          if bytes.take routingBufSize = [] then some socket
          else some { socket with cIgnored := socket.cIgnored + 1 }
  | .back =>
      match socket.standing with
      | none => none
      | some .plain => some socket.udpRecvCb0Back
      | some .bySeq => some { socket with standing := none }

end Steps

section Callback

variable {Seq : Type u} {less : Seq → Seq → Prop} [DecidableRel less] {getter : SeqGetter Seq}
  {socket : Udp Seq} {seqer : Seqer Seq Receiver} {bytes : List Byte} {addr : SockAddr}

theorem udpRecvCb1_picked (shown : socket.seqer = some seqer)
    (nonempty : bytes.take routingBufSize ≠ []) {entry : Seq × Receiver}
    (found : seqer.picked less getter (bytes.take routingBufSize) = some entry) :
    socket.udpRecvCb1 less getter bytes addr = some { socket with
      seqer := some {
        mapping := eraseFirst less (getter (bytes.take routingBufSize) seqer.curSeq).2
          seqer.mapping
        curSeq := (getter (bytes.take routingBufSize) seqer.curSeq).2 }
      waiting := socket.waiting.filter fun other => other.2.id ≠ entry.2.id
      standing := some .bySeq
      fates := socket.fates ++ [.bySeq (routed entry.2 (bytes.take routingBufSize) addr)] } := by
  simp only [Udp.udpRecvCb1, if_neg nonempty, shown, Seqer.unwrap_picked found]

theorem udpRecvCb1_queued (shown : socket.seqer = some seqer)
    (nonempty : bytes.take routingBufSize ≠ [])
    (missed : seqer.picked less getter (bytes.take routingBufSize) = none)
    {receiver : Receiver} {rest : List Receiver} (queue : socket.recvQueue = receiver :: rest) :
    socket.udpRecvCb1 less getter bytes addr = some { socket with
      seqer := some { seqer with
        curSeq := (getter (bytes.take routingBufSize) seqer.curSeq).2 }
      recvQueue := rest
      standing := some .bySeq
      fates := socket.fates ++ [.recv (routed receiver (bytes.take routingBufSize) addr)] } := by
  simp only [Udp.udpRecvCb1, if_neg nonempty, shown, Seqer.unwrap_unpicked missed, queue]

theorem udpRecvCb1_counted (shown : socket.seqer = some seqer)
    (nonempty : bytes.take routingBufSize ≠ [])
    (missed : seqer.picked less getter (bytes.take routingBufSize) = none)
    (queue : socket.recvQueue = []) :
    socket.udpRecvCb1 less getter bytes addr =
      let got := getter (bytes.take routingBufSize) seqer.curSeq
      let taken := { socket with seqer := some { seqer with curSeq := got.2 } }
      if 0 ≤ got.1 then some { taken with
        cUnrecv := socket.cUnrecv + 1
        fates := socket.fates ++ [.unrecv got.2] }
      else some { taken with
        cFailed := socket.cFailed + 1
        fates := socket.fates ++ [.failed got.1] } := by
  simp only [Udp.udpRecvCb1, if_neg nonempty, shown, Seqer.unwrap_unpicked missed, queue]

end Callback

end Cocoflow.UdpSocket
