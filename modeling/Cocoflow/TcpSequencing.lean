import Mathlib.Data.List.Basic
import Mathlib.Order.Defs.Unbundled
import Cocoflow.LabelledRuns
import Cocoflow.StableMultimap
import Cocoflow.TcpConnection
import Cocoflow.LengthFraming
import Cocoflow.PacketFraming
import Cocoflow.Sequencer

/-!
A `tcp::connected` that receives in recv_by_seq mode (src/tcp.cc): the framing of
`PacketFraming` with the receivers behind it. A complete packet is handed to the sequencer
in the middle of `tcp_recv_cb2`; while the resumed task runs, `standing` is set. Between the
resumption and the end of the callback nothing looks at `len2` and `packet_len`, so the
framing starts over at once.

An object in another mode, and a read that breaks the connection and wakes all receivers
through `break_all_recv`, have no next state here.
-/

namespace Cocoflow.TcpSequencing

open LabelledRuns StableMultimap TcpConnection Sequencer

universe u

/-- What a resumed receiver finds: `len` and the bytes in `buf`. -/
structure Delivery where
  receiver : Nat
  len : Nat
  copied : List Byte
  deriving DecidableEq

structure Connected (Seq : Type u) where
  framing : PacketFraming.Connected
  seqer : Seqer Seq Receiver
  cUnrecv : Nat := 0
  cFailed : Nat := 0
  recvQueue0 : List Receiver := []
  waiting : List (Seq × Receiver) := []
  standing : Bool := false
  next : Nat := 0
  fates : List (Fate Seq Delivery) := []

/-- A connection right behind a successful `bind`. -/
def bound {Seq : Type u} [Inhabited Seq] (framing : PacketFraming.Connected) :
    Connected Seq where
  framing := framing
  seqer := { curSeq := default }

def completed (before after : PacketFraming.Connected) : Option (List Byte) :=
  after.handed[before.handed.length]?

def delivered (receiver : Receiver) (packet : List Byte) : Delivery where
  receiver := receiver.id
  len := (receiver.copyOut packet).1
  copied := (receiver.copyOut packet).2

namespace Connected

variable {Seq : Type u}

def recvRun (connection : Connected Seq) (buf : Bool) (len : Nat) : Option (Connected Seq) :=
  if connection.framing.broken ∨ connection.framing.receiving ≠ .recvBySeq then none
  else some { connection with
    recvQueue0 := connection.recvQueue0 ++ [{ id := connection.next, buf := buf, len := len }]
    next := connection.next + 1 }

/-- `recv::cancel`; only plain reading is stopped by an empty queue. -/
def recvCancel (connection : Connected Seq) (id : Nat) : Option (Connected Seq) :=
  if ∃ receiver ∈ connection.recvQueue0, receiver.id = id then
    some { connection with
      recvQueue0 := connection.recvQueue0.filter fun other => other.id ≠ id }
  else none

variable (less : Seq → Seq → Prop) [DecidableRel less] (getter : SeqGetter Seq)

def recvBySeqRun (connection : Connected Seq) (seq : Seq) (buf : Bool) (len : Nat) :
    Option (Connected Seq) :=
  if connection.framing.broken ∨ connection.framing.receiving ≠ .recvBySeq then none
  else
    let receiver : Receiver := { id := connection.next, buf := buf, len := len }
    some { connection with
      seqer := connection.seqer.insert less seq receiver
      waiting := connection.waiting ++ [(seq, receiver)]
      next := connection.next + 1 }

def recvBySeqCancel (connection : Connected Seq) (id : Nat) : Option (Connected Seq) :=
  match connection.waiting.find? fun entry => entry.2.id = id with
  | some entry => some { connection with
      seqer := connection.seqer.erase less entry.1
      waiting := connection.waiting.filter fun other => other.2.id ≠ id }
  | none => none

/-- `tcp_recv_cb2` from `seqer->unwrap` to the end of `__task_stand`. -/
def tcpRecvPacket (connection : Connected Seq) (packet : List Byte) : Connected Seq :=
  let unwrapped := connection.seqer.unwrap less getter packet
  let ret := unwrapped.1
  let taken := { connection with seqer := unwrapped.2.2 }
  match unwrapped.2.1 with
  | some rbs => { taken with
      waiting := taken.waiting.filter fun entry => entry.2.id ≠ rbs.id
      standing := true
      fates := taken.fates ++ [.bySeq (delivered rbs packet)] }
  | none =>
      match taken.recvQueue0 with
      | [] =>
          if 0 ≤ ret then { taken with
            cUnrecv := taken.cUnrecv + 1
            fates := taken.fates ++ [.unrecv unwrapped.2.2.curSeq] }
          else { taken with
            cFailed := taken.cFailed + 1
            fates := taken.fates ++ [.failed ret] }
      | receiver :: rest => { taken with
          recvQueue0 := rest
          standing := true
          fates := taken.fates ++ [.recv (delivered receiver packet)] }

/-- `tcp_alloc_cb2`, the read into the window it offers, and `tcp_recv_cb2`. -/
def tcpRecvCb2 (connection : Connected Seq) (bytes : List Byte) : Option (Connected Seq) :=
  (PacketFraming.step connection.framing (.chunk bytes)).bind fun framed =>
    if framed.reported ≠ connection.framing.reported then none
    else
      let read := { connection with framing := framed }
      match completed connection.framing framed with
      | none => some read
      | some packet => some (read.tcpRecvPacket less getter packet)

end Connected

inductive Label (Seq : Type u) where
  | recv (buf : Bool) (len : Nat)
  | recvBySeq (seq : Seq) (buf : Bool) (len : Nat)
  | cancelRecv (id : Nat)
  | cancelBySeq (id : Nat)
  | read (bytes : List Byte)
  | back

section Steps

variable {Seq : Type u} (less : Seq → Seq → Prop) [DecidableRel less] (getter : SeqGetter Seq)

def step (connection : Connected Seq) : Label Seq → Option (Connected Seq)
  | .recv buf len => connection.recvRun buf len
  | .recvBySeq seq buf len => connection.recvBySeqRun less seq buf len
  | .cancelRecv id => connection.recvCancel id
  | .cancelBySeq id => connection.recvBySeqCancel less id
  | .read bytes =>
      if connection.standing then none else connection.tcpRecvCb2 less getter bytes
  | .back => if connection.standing then some { connection with standing := false } else none

end Steps

theorem tcpRecvPacket_handed (framing : PacketFraming.Connected) :
    framing.tcpRecvPacket.handed = framing.handed ∨
      ∃ packet, packet ≠ [] ∧ framing.tcpRecvPacket.handed = framing.handed ++ [packet] := by
  unfold PacketFraming.Connected.tcpRecvPacket
  split
  · rename_i full
    refine Or.inr ⟨framing.buf2, ?_, rfl⟩
    intro empty
    rw [PacketFraming.Connected.len2, empty] at full
    exact full.1 full.2.symm
  · exact Or.inl rfl

theorem tcpRecvData_handed (framing : PacketFraming.Connected) (chunk : List Byte) :
    (framing.tcpRecvData chunk).handed = framing.handed ∨
      ∃ packet, packet ≠ [] ∧
        (framing.tcpRecvData chunk).handed = framing.handed ++ [packet] := by
  unfold PacketFraming.Connected.tcpRecvData
  dsimp only
  split
  · split
    · exact Or.inl rfl
    · split
      · exact Or.inl rfl
      · exact tcpRecvPacket_handed _
  · exact tcpRecvPacket_handed _

theorem step_handed {before after : PacketFraming.Connected} {bytes : List Byte}
    (taken : PacketFraming.step before (.chunk bytes) = some after) :
    after.handed = before.handed ∨
      ∃ packet, packet ≠ [] ∧ after.handed = before.handed ++ [packet] := by
  simp only [PacketFraming.step] at taken
  split at taken
  · cases taken
  · split at taken
    · cases taken
      exact Or.inl rfl
    · cases taken
      exact tcpRecvData_handed before bytes

theorem step_completed {before after : PacketFraming.Connected} {bytes : List Byte}
    (taken : PacketFraming.step before (.chunk bytes) = some after) :
    (completed before after = none ∧ after.handed = before.handed) ∨
      ∃ packet, packet ≠ [] ∧ completed before after = some packet ∧
        after.handed = before.handed ++ [packet] := by
  rcases step_handed taken with same | ⟨packet, nonempty, more⟩
  · refine Or.inl ⟨?_, same⟩
    simp [completed, same]
  · refine Or.inr ⟨packet, nonempty, ?_, more⟩
    simp [completed, more]

end Cocoflow.TcpSequencing
