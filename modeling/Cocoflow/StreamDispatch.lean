import Mathlib.Data.List.Basic
import Mathlib.Order.Defs.Unbundled
import Mathlib.Order.RelClasses
import Mathlib.Order.Nat
import Cocoflow.LabelledRuns
import Cocoflow.LengthFraming
import Cocoflow.TcpConnection
import Cocoflow.PacketFraming
import Cocoflow.ReferenceFraming
import Cocoflow.Sequencer
import Cocoflow.SeqBoard
import Cocoflow.SeqFront
import Cocoflow.UdpRouting
import Cocoflow.TcpSequencing
import Cocoflow.SeqDispatch

/-!
Receiving on a bound connection from the wire to the tasks. A run is seen as the bytes of the
peer and the calls of the tasks between them; which packets are dispatched, and when, follows
from these alone. The cuts between the reads leave no trace.
-/

namespace Cocoflow.StreamDispatch

open LabelledRuns LengthFraming TcpConnection PacketFraming ReferenceFraming Sequencer SeqBoard
open SeqFront TcpSequencing SeqDispatch

universe u

section Inputs

variable {Seq : Type u}

inductive Input (Seq : Type u) where
  | byte (value : Byte)
  | call (op : Op Seq)

def inputs : TcpSequencing.Label Seq → List (Input Seq)
  | .recv buf len => [.call (.recv buf len)]
  | .recvBySeq seq buf len => [.call (.recvBySeq seq buf len)]
  | .cancelRecv id => [.call (.cancelRecv id)]
  | .cancelBySeq id => [.call (.cancelBySeq id)]
  | .read bytes => bytes.map .byte
  | .back => []

def inflow (labels : List (TcpSequencing.Label Seq)) : List (Input Seq) := labels.flatMap inputs

def readBytes : TcpSequencing.Label Seq → List Byte
  | .read bytes => bytes
  | _ => []

def streamOf (labels : List (TcpSequencing.Label Seq)) : List Byte := labels.flatMap readBytes

def completes (reading : List Byte → List (List Byte)) (stream more : List Byte) :
    List (List Byte) :=
  (reading (stream ++ more)).drop (reading stream).length

/-- The operations on the receivers when `reading` says which packets a stream has: a packet
is dispatched with its last byte. -/
def dispatched (reading : List Byte → List (List Byte)) :
    List Byte → List (Input Seq) → List (Op Seq)
  | _, [] => []
  | stream, .call op :: rest => op :: dispatched reading stream rest
  | stream, .byte value :: rest =>
      (completes reading stream [value]).map Op.packet ++
        dispatched reading (stream ++ [value]) rest

variable {reading : List Byte → List (List Byte)}

theorem completes_append
    (grows : ∀ stream more, reading stream <+: reading (stream ++ more))
    (stream before after : List Byte) :
    completes reading stream (before ++ after) =
      completes reading stream before ++ completes reading (stream ++ before) after := by
  unfold completes
  obtain ⟨first, one⟩ := grows stream before
  obtain ⟨second, two⟩ := grows (stream ++ before) after
  rw [← List.append_assoc, ← two, ← one]
  simp

/-- Bytes that come in together are dispatched like bytes that come in one by one. -/
theorem dispatched_bytes
    (grows : ∀ stream more, reading stream <+: reading (stream ++ more))
    (stream bytes : List Byte) (rest : List (Input Seq)) :
    dispatched reading stream (bytes.map Input.byte ++ rest) =
      (completes reading stream bytes).map Op.packet ++
        dispatched reading (stream ++ bytes) rest := by
  induction bytes generalizing stream with
  | nil => simp [completes]
  | cons value more ih =>
      have split := completes_append grows stream [value] more
      rw [List.singleton_append] at split
      rw [List.map_cons, List.cons_append, dispatched, ih, split]
      simp

end Inputs

section Run

variable {Seq : Type u} {less : Seq → Seq → Prop} [DecidableRel less] {getter : SeqGetter Seq}
  {minLen maxLen : UInt64} {lener : LenGetter} {start : PacketFraming.Connected}
  {connection next : TcpSequencing.Connected Seq} {stream : List Byte}
  {packets : List (List Byte)}

def packetsOf (minLen maxLen : UInt64) (lener : LenGetter) (stream : List Byte) :
    List (List Byte) :=
  (reference minLen maxLen lener stream).1

theorem packetsOf_prefix (stream more : List Byte) :
    packetsOf minLen maxLen lener stream <+: packetsOf minLen maxLen lener (stream ++ more) :=
  frames_prefix stream more

theorem unreported {fault : Option Fault} {framed : PacketFraming.Connected}
    (before : Follows minLen maxLen lener start stream connection.framing packets none)
    {later : List Byte} {more : List (List Byte)}
    (after : Follows minLen maxLen lener start later framed more fault)
    (same : framed.reported = connection.framing.reported) : fault = none := by
  have reports : framingReports framed = framingReports connection.framing := by
    unfold framingReports
    rw [same]
  rw [after.reported, before.reported, List.append_cancel_left_eq] at reports
  cases fault with
  | none => rfl
  | some fault => cases reports

theorem read_dispatched (positive : 0 < minLen.toNat) {bytes : List Byte}
    (follows : Follows minLen maxLen lener start stream connection.framing packets none)
    (taken : connection.tcpRecvCb2 less getter bytes = some next) :
    ∃ more, Follows minLen maxLen lener start (stream ++ bytes) next.framing more none ∧
      (tcpRead connection bytes).toList =
        (completes (packetsOf minLen maxLen lener) stream bytes).map Op.packet := by
  obtain ⟨framed, framing, rest⟩ := Option.bind_eq_some_iff.mp taken
  obtain ⟨more, fault, further⟩ := follows_step positive (.chunk bytes) follows framing
  have first := follows_reference positive follows
  have second := follows_reference positive further
  rw [Read.bytes] at further second
  simp only [tcpRead, framing, Option.bind_some, completes, packetsOf, first, second]
  split at rest
  · cases rest
  · rename_i quiet
    obtain rfl := unreported follows further (not_ne_iff.mp quiet)
    have handed := further.handed
    rcases TcpSequencing.step_completed framing with ⟨open_, same⟩ | ⟨packet, -, full, grown⟩
    · rw [open_] at rest ⊢
      cases rest
      rw [same, follows.handed, List.append_cancel_left_eq] at handed
      refine ⟨more, further, ?_⟩
      rw [handed]
      simp
    · rw [full] at rest ⊢
      cases rest
      rw [grown, follows.handed, List.append_assoc, List.append_cancel_left_eq] at handed
      refine ⟨more, ?_, ?_⟩
      · rw [tcpRecvPacket_framing]
        exact further
      · rw [← handed]
        simp

theorem follows_still
    (follows : Follows minLen maxLen lener start stream connection.framing packets none) :
    Follows minLen maxLen lener start (stream ++ []) connection.framing packets none := by
  rw [List.append_nil]
  exact follows

theorem step_dispatched (positive : 0 < minLen.toNat) (label : TcpSequencing.Label Seq)
    (follows : Follows minLen maxLen lener start stream connection.framing packets none)
    (taken : TcpSequencing.step less getter connection label = some next)
    (rest : List (Input Seq)) :
    ∃ more, Follows minLen maxLen lener start (stream ++ readBytes label) next.framing more
        none ∧
      dispatched (packetsOf minLen maxLen lener) stream (inputs label ++ rest) =
        (tcpOp connection label).toList ++
          dispatched (packetsOf minLen maxLen lener) (stream ++ readBytes label) rest := by
  cases label with
  | recv buf len =>
      simp only [TcpSequencing.step, TcpSequencing.Connected.recvRun] at taken
      split at taken
      · cases taken
      · cases taken
        exact ⟨packets, follows_still follows, by simp [inputs, readBytes, tcpOp, dispatched]⟩
  | recvBySeq seq buf len =>
      simp only [TcpSequencing.step, TcpSequencing.Connected.recvBySeqRun] at taken
      split at taken
      · cases taken
      · cases taken
        exact ⟨packets, follows_still follows, by simp [inputs, readBytes, tcpOp, dispatched]⟩
  | cancelRecv id =>
      simp only [TcpSequencing.step, TcpSequencing.Connected.recvCancel] at taken
      split at taken
      · cases taken
        exact ⟨packets, follows_still follows, by simp [inputs, readBytes, tcpOp, dispatched]⟩
      · cases taken
  | cancelBySeq id =>
      simp only [TcpSequencing.step, TcpSequencing.Connected.recvBySeqCancel] at taken
      split at taken
      · cases taken
        exact ⟨packets, follows_still follows, by simp [inputs, readBytes, tcpOp, dispatched]⟩
      · cases taken
  | read bytes =>
      simp only [TcpSequencing.step] at taken
      split at taken
      · cases taken
      · obtain ⟨more, further, ops⟩ := read_dispatched positive follows taken
        refine ⟨more, further, ?_⟩
        rw [inputs, dispatched_bytes packetsOf_prefix, tcpOp, ops, readBytes]
  | back =>
      simp only [TcpSequencing.step] at taken
      split at taken
      · cases taken
        exact ⟨packets, follows_still follows, by simp [inputs, readBytes, tcpOp]⟩
      · cases taken

/-- A whole run does to the receivers what its inflow says. -/
theorem run_dispatched (positive : 0 < minLen.toNat)
    {labels : List (TcpSequencing.Label Seq)} {last : TcpSequencing.Connected Seq}
    (follows : Follows minLen maxLen lener start stream connection.framing packets none)
    (run : replay (TcpSequencing.step less getter) connection labels = some last) :
    (∃ more, Follows minLen maxLen lener start (stream ++ streamOf labels) last.framing more
        none) ∧
      replay (SeqFront.step less getter) (tcpFront connection)
        (dispatched (packetsOf minLen maxLen lener) stream (inflow labels)) =
          some (tcpFront last) := by
  induction labels generalizing connection stream packets with
  | nil =>
      cases run
      rw [streamOf, List.flatMap_nil, List.append_nil]
      exact ⟨⟨packets, follows⟩, rfl⟩
  | cons label rest ih =>
      obtain ⟨next, taken, tail⟩ := replay_cons run
      obtain ⟨more, further, ops⟩ := step_dispatched positive label follows taken (inflow rest)
      obtain ⟨ends, later⟩ := ih further tail
      have front := tcp_follows label taken
      rw [inflow, streamOf, List.flatMap_cons, List.flatMap_cons, ← List.append_assoc]
      refine ⟨ends, ?_⟩
      rw [inflow] at ops later
      rw [ops]
      cases op : tcpOp connection label with
      | none =>
          rw [op] at front
          have kept : tcpFront next = tcpFront connection := front
          rw [← kept]
          exact later
      | some op' =>
          rw [op] at front
          have moved : SeqFront.step less getter (tcpFront connection) op' =
              some (tcpFront next) := front
          rw [Option.toList_some, List.singleton_append, replay, moved]
          exact later

theorem tcpRecvPacket_fates (connection : TcpSequencing.Connected Seq) (packet : List Byte) :
    (connection.tcpRecvPacket less getter packet).fates.length = connection.fates.length + 1 := by
  unfold TcpSequencing.Connected.tcpRecvPacket
  dsimp only
  split
  · exact List.length_append
  · split
    · split <;> exact List.length_append
    · exact List.length_append

theorem read_fates {bytes : List Byte}
    (taken : connection.tcpRecvCb2 less getter bytes = some next) :
    next.fates.length + connection.framing.handed.length =
      connection.fates.length + next.framing.handed.length := by
  obtain ⟨framed, framing, rest⟩ := Option.bind_eq_some_iff.mp taken
  split at rest
  · cases rest
  · rcases TcpSequencing.step_completed framing with ⟨open_, same⟩ | ⟨packet, -, full, grown⟩
    · rw [open_] at rest
      cases rest
      rw [same]
    · rw [full] at rest
      cases rest
      rw [tcpRecvPacket_fates, tcpRecvPacket_framing, grown, List.length_append,
        List.length_singleton]
      dsimp only
      omega

theorem fates_handed (label : TcpSequencing.Label Seq)
    (taken : TcpSequencing.step less getter connection label = some next) :
    next.fates.length + connection.framing.handed.length =
      connection.fates.length + next.framing.handed.length := by
  cases label with
  | recv buf len =>
      simp only [TcpSequencing.step, TcpSequencing.Connected.recvRun] at taken
      split at taken
      · cases taken
      · cases taken
        rfl
  | recvBySeq seq buf len =>
      simp only [TcpSequencing.step, TcpSequencing.Connected.recvBySeqRun] at taken
      split at taken
      · cases taken
      · cases taken
        rfl
  | cancelRecv id =>
      simp only [TcpSequencing.step, TcpSequencing.Connected.recvCancel] at taken
      split at taken
      · cases taken
        rfl
      · cases taken
  | cancelBySeq id =>
      simp only [TcpSequencing.step, TcpSequencing.Connected.recvBySeqCancel] at taken
      split at taken
      · cases taken
        rfl
      · cases taken
  | read bytes =>
      simp only [TcpSequencing.step] at taken
      split at taken
      · cases taken
      · exact read_fates taken
  | back =>
      simp only [TcpSequencing.step] at taken
      split at taken
      · cases taken
        rfl
      · cases taken

theorem fates_counted {labels : List (TcpSequencing.Label Seq)}
    {last : TcpSequencing.Connected Seq}
    (run : replay (TcpSequencing.step less getter) connection labels = some last) :
    last.fates.length + connection.framing.handed.length =
      connection.fates.length + last.framing.handed.length := by
  refine replay_always (fun state => state.fates.length + connection.framing.handed.length =
    connection.fates.length + state.framing.handed.length) ?_ rfl run
  intro state label next kept taken
  have moved := fates_handed label taken
  omega

theorem ops_traced [IsStrictWeakOrder Seq less] {front after : Front Seq} {board : Board Seq}
    {ops : List (Op Seq)} (traced : Traced less front board)
    (run : replay (SeqFront.step less getter) front ops = some after) :
    ∃ final, replay (SeqBoard.step less getter) board
        (observed (SeqFront.step less getter) events front ops) = some final ∧
      Traced less after final := by
  apply replay_simulates events (Traced less) _ traced run
  intro state op next board traced taken
  have follows : Follows less getter state (some op) next := taken
  exact traced_follows traced follows

variable [Inhabited Seq]

/-- Behind a successful `bind`, the bytes of the peer and the calls between them decide what
becomes of every packet: those of the bounded reading are dispatched, each with its last byte
and each to one end, and the cuts between the reads do not show. -/
theorem dispatched_by_stream [IsStrictWeakOrder Seq less]
    (connection framing : PacketFraming.Connected) (unframed : Unframed connection)
    (seqer : Bool) (minLen maxLen : UInt64) (lener : LenGetter)
    (accepted : connection.bind seqer minLen maxLen (some lener) = (0, framing))
    (labels : List (TcpSequencing.Label Seq)) (last : TcpSequencing.Connected Seq)
    (run : replay (TcpSequencing.step less getter) (bound framing) labels = some last) :
    (reference minLen maxLen lener (streamOf labels)).2 = none ∧
      last.fates.length = (packetsOf minLen maxLen lener (streamOf labels)).length ∧
      (∃ board, replay (SeqBoard.step less getter) { curSeq := default }
          (observed (SeqFront.step less getter) events (tcpFront (bound framing))
            (dispatched (packetsOf minLen maxLen lener) [] (inflow labels))) = some board ∧
        Shows less (tcpFront last) board) ∧
      ∀ (others : List (TcpSequencing.Label Seq)) (final : TcpSequencing.Connected Seq),
        inflow others = inflow labels →
        replay (TcpSequencing.step less getter) (bound framing) others = some final →
          tcpFront final = tcpFront last := by
  obtain ⟨positive, -⟩ := bind_tracks unframed accepted
  have follows : ReferenceFraming.Follows minLen maxLen lener connection []
      (bound framing : TcpSequencing.Connected Seq).framing [] none :=
    bind_follows unframed accepted
  obtain ⟨⟨packets, ends⟩, dispatches⟩ := run_dispatched positive follows run
  rw [List.nil_append] at ends
  have read := follows_reference positive ends
  refine ⟨by rw [read], ?_, ?_, ?_⟩
  · have counted := fates_counted run
    have handed := congrArg List.length ends.handed
    have before := congrArg List.length follows.handed
    rw [List.length_append] at handed before
    change framing.handed.length = _ at before
    change last.fates.length + framing.handed.length = 0 + last.framing.handed.length at counted
    rw [packetsOf, read]
    simp only [List.length_nil] at before ⊢
    omega
  · obtain ⟨board, follows_, shows_, -⟩ := ops_traced (traced_new default) dispatches
    exact ⟨board, follows_, shows_⟩
  · intro others final same second
    obtain ⟨-, other⟩ := run_dispatched positive follows second
    rw [same, dispatches] at other
    exact (Option.some.inj other).symm

end Run

/-- Two packets, and a call between their bytes: in large reads, and byte by byte. -/
def largeReads : List (TcpSequencing.Label Nat) :=
  [.recvBySeq 7 true 8, .recv false 0, .read [9, 3], .read [1], .back, .read [7, 2], .back]

def byteReads : List (TcpSequencing.Label Nat) :=
  [.recvBySeq 7 true 8, .recv false 0, .read [9], .read [3], .read [1], .back, .read [7],
    .read [2], .back]

theorem dispatched_by_stream_cuts :
    packetsOf 2 4 lengthByte [9, 3, 1, 7, 2] = [[9, 3, 1], [7, 2]] ∧
      ∃ last final,
        replay (TcpSequencing.step (· < ·) UdpRouting.firstByte) (bound boundExample)
            largeReads = some last ∧
          replay (TcpSequencing.step (· < ·) UdpRouting.firstByte) (bound boundExample)
            byteReads = some final ∧
          (tcpFront last).fates = [.recv 1, .bySeq 0] ∧ tcpFront final = tcpFront last := by
  have order : IsStrictWeakOrder Nat (· < ·) := isStrictWeakOrder_of_isOrderConnected
  have reached : (replay (TcpSequencing.step (· < ·) UdpRouting.firstByte) (bound boundExample)
      largeReads).isSome := by decide
  have other : (replay (TcpSequencing.step (· < ·) UdpRouting.firstByte) (bound boundExample)
      byteReads).isSome := by decide
  have ends : (tcpFront ((replay (TcpSequencing.step (· < ·) UdpRouting.firstByte)
      (bound boundExample) largeReads).get reached)).fates = [.recv 1, .bySeq 0] := by
    rfl
  obtain ⟨-, -, -, cuts⟩ := dispatched_by_stream {} boundExample unframed_new true 2 4 lengthByte
    (Prod.ext (by decide) rfl) largeReads _ (Option.some_get reached).symm
  refine ⟨by decide, _, _, (Option.some_get reached).symm, (Option.some_get other).symm,
    ends, cuts byteReads _ rfl (Option.some_get other).symm⟩

end Cocoflow.StreamDispatch
