import Mathlib.Data.List.Basic
import Cocoflow.LabelledRuns
import Cocoflow.StableMultimap
import Cocoflow.TcpConnection
import Cocoflow.Sequencer
import Cocoflow.UdpSocket

/-!
A `recv` on a `udp` object is completed by `udp_recv_cb0`, or by `udp_recv_cb1` when no
`recv_by_seq` waits for the datagram. The first one offers the caller's buffer to libuv and looks
at `len` again after the number of bytes read has been stored in it; the second one copies out of
`routing_buf`.
-/

namespace Cocoflow.UdpDelivery

open LabelledRuns StableMultimap TcpConnection Sequencer UdpSocket

universe u

/-- A nonempty datagram. The length field of UDP has 16 bits. -/
structure Datagram where
  bytes : List Byte
  nonempty : bytes ≠ []
  small : bytes.length < 2 ^ 16

variable {Seq : Type u}

def Completes (socket : Udp Seq) (next : Option (Udp Seq)) (delivery : Delivery) : Prop :=
  ∃ after, next = some after ∧ after.fates = socket.fates ++ [.recv delivery]

/-- What the resumed task can see is the same. `buf` is used if it is given and has room. -/
structure Agree (buf : Bool) (len : Nat) (one other : Delivery) : Prop where
  length : one.len = other.len
  copied : one.copied = other.copied
  addr : one.addr = other.addr
  visible : ¬(buf = true ∧ len ≠ 0) → one.visible = other.visible

/-- No buffer is given, or one whose length `uv_buf_init` does not cut below the datagram. -/
def Covered (buf : Bool) (len : Nat) (datagram : Datagram) : Prop :=
  buf = false ∨ len ≠ 0 ∧ (len < 2 ^ 32 ∨ datagram.bytes.length ≤ uvBufLen len)

theorem Datagram.routed (datagram : Datagram) :
    datagram.bytes.take routingBufSize = datagram.bytes :=
  List.take_of_length_le (Nat.le_of_lt datagram.small)

theorem Datagram.positive (datagram : Datagram) : 0 < datagram.bytes.length :=
  List.length_pos_iff.mpr datagram.nonempty

section Callbacks

variable {socket : Udp Seq} {receiver : Receiver} {rest : List Receiver} {datagram : Datagram}
  {addr : SockAddr} {delivery : Delivery}

theorem plain_completes (queue : socket.recvQueue = receiver :: rest) :
    Completes socket (socket.udpRecvCb0 datagram.bytes addr) delivery ↔
      0 < udpAllocCb0 receiver ∧
        delivery = filled receiver (datagram.bytes.take (udpAllocCb0 receiver)) addr := by
  have positive := datagram.positive
  unfold Udp.udpRecvCb0
  rw [queue]
  dsimp only
  split
  · rename_i nothing
    have closed : udpAllocCb0 receiver = 0 := by omega
    constructor
    · rintro ⟨after, ⟨⟩, fates⟩
      simp at fates
    · rintro ⟨opened, -⟩
      omega
  · rename_i some_
    have window : datagram.bytes.take (min datagram.bytes.length (udpAllocCb0 receiver)) =
        datagram.bytes.take (udpAllocCb0 receiver) := by
      rw [Nat.min_comm, ← List.take_take, List.take_length]
    rw [window]
    constructor
    · rintro ⟨after, ⟨⟩, fates⟩
      have same := List.append_cancel_left fates
      refine ⟨by omega, ?_⟩
      cases same
      rfl
    · rintro ⟨-, rfl⟩
      exact ⟨_, rfl, rfl⟩

variable {less : Seq → Seq → Prop} [DecidableRel less] {getter : SeqGetter Seq}
  {seqer : Seqer Seq Receiver}

theorem sequenced_completes (shown : socket.seqer = some seqer)
    (missed : seqer.picked less getter datagram.bytes = none)
    (queue : socket.recvQueue = receiver :: rest) :
    Completes socket (socket.udpRecvCb1 less getter datagram.bytes addr) delivery ↔
      delivery = routed receiver datagram.bytes addr := by
  have whole := datagram.routed
  have nonempty : datagram.bytes.take routingBufSize ≠ [] := by
    rw [whole]
    exact datagram.nonempty
  rw [udpRecvCb1_queued shown nonempty (by rw [whole]; exact missed) queue, whole]
  constructor
  · rintro ⟨after, ⟨⟩, fates⟩
    cases List.append_cancel_left fates
    rfl
  · rintro rfl
    exact ⟨_, rfl, rfl⟩

end Callbacks

theorem copyOut_given (id len : Nat) (packet : List Byte) :
    (⟨id, true, len⟩ : Receiver).copyOut packet = (min len packet.length, packet.take len) := by
  unfold Receiver.copyOut
  dsimp only
  rw [if_pos rfl]
  split
  · rename_i longer
    rw [List.take_length, List.take_of_length_le (Nat.le_of_lt longer),
      Nat.min_eq_right (Nat.le_of_lt longer)]
  · rename_i shorter
    rw [Nat.min_eq_left (Nat.le_of_not_lt shorter)]

theorem agree_iff (id other : Nat) (buf : Bool) (len : Nat) (datagram : Datagram)
    (addr : SockAddr) :
    (0 < udpAllocCb0 ⟨id, buf, len⟩ ∧
        Agree buf len
          (filled ⟨id, buf, len⟩ (datagram.bytes.take (udpAllocCb0 ⟨id, buf, len⟩)) addr)
          (routed ⟨other, buf, len⟩ datagram.bytes addr)) ↔
      Covered buf len datagram := by
  have positive := datagram.positive
  have small := datagram.small
  have whole := datagram.routed
  cases buf with
  | false =>
      have window : udpAllocCb0 ⟨id, false, len⟩ = routingBufSize := by
        simp [udpAllocCb0, Offers]
      rw [window, whole]
      constructor
      · intro _
        exact Or.inl rfl
      · intro _
        refine ⟨by decide, ?_, ?_, rfl, ?_⟩
        · rfl
        · simp [filled, routed, Receiver.copyOut, Offers]
        · intro _
          rfl
  | true =>
      by_cases nothing : len = 0
      · subst nothing
        have window : udpAllocCb0 ⟨id, true, 0⟩ = routingBufSize := by
          simp [udpAllocCb0, Offers]
        rw [window, whole]
        constructor
        · rintro ⟨-, same⟩
          -- without room the window shows the whole datagram, the copy nothing
          have lengths : datagram.bytes.length = 0 := same.length
          omega
        · rintro (missing | ⟨room, -⟩)
          · cases missing
          · exact absurd rfl room
      · have window : udpAllocCb0 ⟨id, true, len⟩ = uvBufLen len := by
          simp [udpAllocCb0, Offers, nothing]
        have offered : Offers ⟨id, true, len⟩ := ⟨rfl, nothing⟩
        rw [window]
        constructor
        · rintro ⟨opened, same⟩
          have lengths := same.length
          simp only [filled, routed, copyOut_given, List.length_take] at lengths
          refine Or.inr ⟨nothing, ?_⟩
          omega
        · rintro (missing | ⟨-, wide⟩)
          · cases missing
          · -- the window has 32 bits, the buffer may be larger
            have taken : min (uvBufLen len) datagram.bytes.length =
                min len datagram.bytes.length := by
              unfold uvBufLen at *
              omega
            refine ⟨?_, ?_, ?_, rfl, ?_⟩
            · unfold uvBufLen at *
              omega
            · simp only [filled, routed, copyOut_given, List.length_take]
              exact taken
            · simp only [filled, routed, copyOut_given, if_pos offered]
              rw [← List.take_length (l := datagram.bytes), List.take_take, List.take_take,
                taken]
            · intro unused
              exact absurd ⟨rfl, nothing⟩ unused

section Paths

variable (less : Seq → Seq → Prop) [DecidableRel less] (getter : SeqGetter Seq)

/-- Either callback completes the `recv` at the head of its queue, with the same effect. -/
def SameDelivery (plain sequenced : Udp Seq) (buf : Bool) (len : Nat) (datagram : Datagram)
    (addr : SockAddr) : Prop :=
  ∃ one other, Completes plain (plain.udpRecvCb0 datagram.bytes addr) one ∧
    Completes sequenced (sequenced.udpRecvCb1 less getter datagram.bytes addr) other ∧
    Agree buf len one other

end Paths

/-- A `recv` gets the same from both callbacks exactly when its `buf` is missing, or has room
and its length is not cut below the datagram. -/
theorem same_delivery_iff (less : Seq → Seq → Prop) [DecidableRel less] (getter : SeqGetter Seq)
    (plain sequenced : Udp Seq) (seqer : Seqer Seq Receiver) (id other : Nat) (buf : Bool)
    (len : Nat) (rest more : List Receiver) (datagram : Datagram) (addr : SockAddr)
    (waiting : plain.recvQueue = ⟨id, buf, len⟩ :: rest)
    (queued : sequenced.recvQueue = ⟨other, buf, len⟩ :: more)
    (shown : sequenced.seqer = some seqer)
    (missed : seqer.picked less getter datagram.bytes = none) :
    SameDelivery less getter plain sequenced buf len datagram addr ↔
      Covered buf len datagram := by
  rw [← agree_iff id other buf len datagram addr]
  unfold SameDelivery
  simp only [plain_completes waiting, sequenced_completes shown missed queued]
  constructor
  · rintro ⟨_, _, ⟨opened, rfl⟩, rfl, same⟩
    exact ⟨opened, same⟩
  · rintro ⟨opened, same⟩
    exact ⟨_, _, ⟨opened, rfl⟩, rfl, same⟩

def unnumbered : SeqGetter Nat := fun _ seq => (-1, seq)

def plainSocket (buf : Bool) (len : Nat) : Udp Nat :=
  { receiving := .recv, reading := some .cb0, recvQueue := [⟨0, buf, len⟩], next := 1 }

def sequencedSocket (buf : Bool) (len : Nat) : Udp Nat :=
  { receiving := .recvBySeq, reading := some .cb1, seqer := some { curSeq := 0 }
    recvQueue := [⟨0, buf, len⟩], next := 1 }

theorem single_nonempty : ([7] : List Byte) ≠ [] := List.cons_ne_nil 7 []

theorem single_small : ([7] : List Byte).length < 2 ^ 16 := by decide

def single : Datagram := ⟨[7], single_nonempty, single_small⟩

theorem same_delivery_single :
    SameDelivery (· < ·) unnumbered (plainSocket true 4) (sequencedSocket true 4) true 4 single
      (.inet [127, 0, 0, 1]) :=
  (same_delivery_iff (· < ·) unnumbered (plainSocket true 4) (sequencedSocket true 4)
    { curSeq := 0 } 0 0 true 4 [] [] single _ rfl rfl rfl rfl).mpr
    (Or.inr ⟨by decide, Or.inl (by decide)⟩)

/-- With a buffer of length 0 the plain callback stores the length of the datagram in `len`, the
other one stores 0. -/
theorem no_room_differs : ¬∀ (buf : Bool) (len : Nat) (datagram : Datagram) (addr : SockAddr),
    SameDelivery (· < ·) unnumbered (plainSocket buf len) (sequencedSocket buf len) buf len
      datagram addr := by
  intro claimed
  obtain ⟨one, other, ⟨_, ⟨⟩, plain⟩, ⟨_, ⟨⟩, sequenced⟩, same⟩ :=
    claimed true 0 single (.inet [127, 0, 0, 1])
  cases plain
  cases sequenced
  exact absurd same.length (by decide)

end Cocoflow.UdpDelivery
