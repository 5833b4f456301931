import Mathlib.Data.List.Basic
import Mathlib.Data.List.Nodup
import Mathlib.Order.Defs.Unbundled
import Mathlib.Order.RelClasses
import Mathlib.Order.Nat
import Cocoflow.LabelledRuns
import Cocoflow.StableMultimap
import Cocoflow.TcpConnection
import Cocoflow.LengthFraming
import Cocoflow.PacketFraming
import Cocoflow.Sequencer
import Cocoflow.SeqBoard
import Cocoflow.SeqFront
import Cocoflow.UdpSocket
import Cocoflow.UdpRouting
import Cocoflow.TcpSequencing
import Cocoflow.SeqDispatch

/-!
Cancelling a `recv_by_seq`. `seqer_wrapper::erase` is given only the key and takes out every
registration under it, so a cancellation leaves the other tasks alone exactly when none of
them waits for an equivalent key.
-/

namespace Cocoflow.SeqCancel

open LabelledRuns StableMultimap TcpConnection Sequencer SeqBoard SeqFront SeqDispatch

universe u

section Cancellation

variable {Seq : Type u} (less : Seq → Seq → Prop)

def OnlyGone (entry : Seq × Receiver) (before after : List (Seq × Receiver)) : Prop :=
  after = before.filter fun other => other.2.id ≠ entry.2.id

def OnlyKey (entry : Seq × Receiver) (registered : List (Seq × Receiver)) : Prop :=
  ∀ other ∈ registered, Equivalent less entry.1 other.1 → other.2.id = entry.2.id

variable {less} [DecidableRel less] {getter : SeqGetter Seq}

theorem eraseKey_only [IsStrictWeakOrder Seq less] {entry : Seq × Receiver}
    {registered : List (Seq × Receiver)}
    (own : ∀ other ∈ registered, other.2.id = entry.2.id → other = entry) :
    OnlyGone entry registered (eraseKey less entry.1 registered) ↔
      OnlyKey less entry registered :=
  eraseKey_alone Receiver.id own

theorem front_cancel_iff [IsStrictWeakOrder Seq less] {front after : Front Seq}
    {board : Board Seq} {entry : Seq × Receiver} (shows_ : Shows less front board)
    (task : entry ∈ front.waiting)
    (taken : SeqFront.step less getter front (.cancelBySeq entry.2.id) = some after) :
    OnlyGone entry front.seqer.mapping after.seqer.mapping ↔
      OnlyKey less entry front.seqer.mapping := by
  simp only [SeqFront.step] at taken
  split at taken
  · rename_i found first
    cases taken
    have same : found.2.id = entry.2.id := by simpa using List.find?_some first
    obtain rfl := List.inj_on_of_nodup_map shows_.distinct
      (List.mem_of_find?_eq_some first) task same
    apply eraseKey_only
    intro other member equal
    have waits := shows_.known other ((mirrors_mem shows_.mirrors other).mp member)
    exact List.inj_on_of_nodup_map shows_.distinct waits task equal
  · cases taken

theorem udpFront_mapping [Inhabited Seq] (socket : UdpSocket.Udp Seq) :
    (udpFront socket).seqer.mapping = UdpRouting.mapping socket := by
  unfold udpFront UdpRouting.mapping
  cases socket.seqer <;> rfl

/-- On every reachable socket and connection, a cancelled `recv_by_seq` takes exactly its own
registration with it if and only if no other task is registered under an equivalent key. -/
theorem recv_by_seq_cancel_iff [Inhabited Seq] [IsStrictWeakOrder Seq less] :
    (∀ (labels : List (UdpSocket.Label Seq)) (socket next : UdpSocket.Udp Seq)
      (entry : Seq × Receiver),
      replay (UdpSocket.step less getter) {} labels = some socket → entry ∈ socket.waiting →
      UdpSocket.step less getter socket (.cancelBySeq entry.2.id) = some next →
        (OnlyGone entry (UdpRouting.mapping socket) (UdpRouting.mapping next) ↔
          OnlyKey less entry (UdpRouting.mapping socket))) ∧
    (∀ (framing : PacketFraming.Connected) (labels : List (TcpSequencing.Label Seq))
      (connection next : TcpSequencing.Connected Seq) (entry : Seq × Receiver),
      replay (TcpSequencing.step less getter) (TcpSequencing.bound framing) labels =
        some connection → entry ∈ connection.waiting →
      TcpSequencing.step less getter connection (.cancelBySeq entry.2.id) = some next →
        (OnlyGone entry connection.seqer.mapping next.seqer.mapping ↔
          OnlyKey less entry connection.seqer.mapping)) := by
  constructor
  · intro labels socket next entry reached task taken
    obtain ⟨board, -, shows_, -⟩ := udp_traced (traced_new default) reached
    have cancelled := front_cancel_iff shows_ task (udp_follows _ taken)
    rwa [udpFront_mapping, udpFront_mapping] at cancelled
  · intro framing labels connection next entry reached task taken
    obtain ⟨board, -, shows_, -⟩ := tcp_traced (traced_new default) reached
    have cancelled := front_cancel_iff shows_ task (tcp_follows _ taken)
    exact cancelled

end Cancellation

def threeWaiting : List (UdpSocket.Label Nat) :=
  [.bindSeqer, .recvBySeq 5 true 8, .recvBySeq 5 true 8, .recvBySeq 6 true 8]

theorem recv_by_seq_cancel_alone : ∃ socket next,
    replay (UdpSocket.step (· < ·) UdpRouting.firstByte) {} threeWaiting = some socket ∧
      UdpSocket.step (· < ·) UdpRouting.firstByte socket (.cancelBySeq 2) = some next ∧
      OnlyGone (6, { id := 2, buf := true, len := 8 }) (UdpRouting.mapping socket)
        (UdpRouting.mapping next) := by
  have order : IsStrictWeakOrder Nat (· < ·) := isStrictWeakOrder_of_isOrderConnected
  have reached : (replay (UdpSocket.step (· < ·) UdpRouting.firstByte) {}
      threeWaiting).isSome := by decide
  have ran : (UdpSocket.step (· < ·) UdpRouting.firstByte
      ((replay (UdpSocket.step (· < ·) UdpRouting.firstByte) {} threeWaiting).get reached)
      (.cancelBySeq 2)).isSome := by decide +revert
  have task : ((6, { id := 2, buf := true, len := 8 }) : Nat × Receiver) ∈
      ((replay (UdpSocket.step (· < ·) UdpRouting.firstByte) {} threeWaiting).get
        reached).waiting := by decide +revert
  have alone : ∀ other ∈ UdpRouting.mapping
      ((replay (UdpSocket.step (· < ·) UdpRouting.firstByte) {} threeWaiting).get reached),
      Equivalent (· < ·) 6 other.1 → other.2.id = 2 := by decide +revert
  exact ⟨_, _, (Option.some_get reached).symm, (Option.some_get ran).symm,
    (recv_by_seq_cancel_iff.1 _ _ _ _ (Option.some_get reached).symm task
      (Option.some_get ran).symm).mpr alone⟩

/-- The other task under the key loses its registration. -/
theorem recv_by_seq_cancel_both : ¬∀ (labels : List (UdpSocket.Label Nat))
    (socket next : UdpSocket.Udp Nat) (entry : Nat × Receiver),
    replay (UdpSocket.step (· < ·) UdpRouting.firstByte) {} labels = some socket →
    entry ∈ socket.waiting →
    UdpSocket.step (· < ·) UdpRouting.firstByte socket (.cancelBySeq entry.2.id) = some next →
      OnlyGone entry (UdpRouting.mapping socket) (UdpRouting.mapping next) := by
  intro claimed
  have reached : (replay (UdpSocket.step (· < ·) UdpRouting.firstByte) {}
      threeWaiting).isSome := by decide
  have ran : (UdpSocket.step (· < ·) UdpRouting.firstByte
      ((replay (UdpSocket.step (· < ·) UdpRouting.firstByte) {} threeWaiting).get reached)
      (.cancelBySeq 0)).isSome := by decide +revert
  have task : ((5, { id := 0, buf := true, len := 8 }) : Nat × Receiver) ∈
      ((replay (UdpSocket.step (· < ·) UdpRouting.firstByte) {} threeWaiting).get
        reached).waiting := by decide +revert
  have both : UdpRouting.mapping ((UdpSocket.step (· < ·) UdpRouting.firstByte
      ((replay (UdpSocket.step (· < ·) UdpRouting.firstByte) {} threeWaiting).get reached)
      (.cancelBySeq 0)).get ran) ≠
      (UdpRouting.mapping ((replay (UdpSocket.step (· < ·) UdpRouting.firstByte) {}
        threeWaiting).get reached)).filter fun other => other.2.id ≠ 0 := by
    decide +revert
  exact both (claimed _ _ _ _ (Option.some_get reached).symm task (Option.some_get ran).symm)

end Cocoflow.SeqCancel
