import Mathlib.Data.List.Basic
import Cocoflow.LabelledRuns
import Cocoflow.LengthFraming
import Cocoflow.TcpConnection

/-!
Packet framing on a bound `tcp::connected` (src/tcp.cc, recv_by_seq). `tcp_alloc_cb2`
offers the window into `buf2` that the next read may fill, and `tcp_recv_cb2` advances the
framing. Peer data decides `packet_len`, and a framing error neither stops the reading nor
resets the framing.

`buf2` is kept as the bytes `buf2[0..len2)`, so its length is `len2`; `size2` is the
extent of the allocation. `tcp_recv_cb2` never looks at that extent again once a length has
been reported: it goes on with whatever the windows let in, and so does the model.
-/

namespace Cocoflow.PacketFraming

open LabelledRuns LengthFraming TcpConnection

abbrev LenGetter := List Byte → UInt64

inductive Report where
  | failure | packetLengthTooShort | packetLengthTooLong
  deriving DecidableEq

/-- The framing part of `tcp::connected`. `handed` collects the packets passed to
`seqer->unwrap` and `reported` the codes passed to `break_all_recv`. -/
structure Connected where
  receiving : Receiving := .ready
  broken : Bool := false
  seqer : Bool := false
  headerLen : Nat := 0
  size2 : Nat := 0
  packetLen : Nat := 0
  buf2 : List Byte := []
  lener : Option LenGetter := none
  handed : List (List Byte) := []
  reported : List Report := []

namespace Connected

def len2 (connection : Connected) : Nat := connection.buf2.length

def bindInner (connection : Connected) (minLen maxLen : UInt64) (lener : Option LenGetter) :
    Int × Connected :=
  if minLen = 0 ∨ maxLen = 0 ∨ lener.isNone ∨ connection.headerLen ≠ 0 ∨
      connection.receiving ≠ .ready then (-1, connection)
  else (0, { connection with
    headerLen := minLen.toNat
    size2 := maxLen.toNat
    lener := lener
    receiving := .recvBySeq })

/-- The sequencer is installed before `bind_inner` looks at the other arguments. -/
def bind (connection : Connected) (getter : Bool) (minLen maxLen : UInt64)
    (lener : Option LenGetter) : Int × Connected :=
  if getter = false ∨ connection.seqer then (-1, connection)
  else bindInner { connection with seqer := true } minLen maxLen lener

def target (connection : Connected) : Nat :=
  if connection.len2 < connection.headerLen then connection.headerLen
  else connection.packetLen

/-- `tcp_alloc_cb2`: the length of the window that starts at `buf2 + len2`. -/
def tcpAllocCb2 (connection : Connected) : Nat :=
  uvBufLen (sizeSub connection.target connection.len2)

def breakAllRecv (connection : Connected) (code : Report) : Connected :=
  { connection with broken := true, reported := connection.reported ++ [code] }

/-- The second half of `tcp_recv_cb2`: a complete packet goes to the sequencer. Whichever
receiver it finds, the framing then starts over. -/
def tcpRecvPacket (connection : Connected) : Connected :=
  if connection.packetLen ≠ 0 ∧ connection.len2 = connection.packetLen then
    { connection with
      handed := connection.handed ++ [connection.buf2]
      buf2 := []
      packetLen := 0 }
  else connection

/-- `lener(buf2, len2)`; `bind` never installs a null `lener`. -/
def measure (connection : Connected) : Nat :=
  match connection.lener with
  | some lener => (lener connection.buf2).toNat
  | none => 0

def tcpRecvData (connection : Connected) (chunk : List Byte) : Connected :=
  let filled : Connected := { connection with buf2 := connection.buf2 ++ chunk }
  if filled.packetLen = 0 ∧ filled.len2 = filled.headerLen then
    let measured : Connected := { filled with packetLen := filled.measure }
    if measured.packetLen < measured.headerLen then
      measured.breakAllRecv .packetLengthTooShort
    else if measured.size2 < measured.packetLen then
      measured.breakAllRecv .packetLengthTooLong
    else measured.tcpRecvPacket
  else filled.tcpRecvPacket

end Connected

/-- One call of `tcp_recv_cb2`: `nread` bytes, or `nread < 0`. -/
inductive Read where
  | chunk (bytes : List Byte)
  | failed

def Read.bytes : Read → List Byte
  | .chunk bytes => bytes
  | .failed => []

def step (connection : Connected) : Read → Option Connected
  | .failed => some (connection.breakAllRecv .failure)
  | .chunk bytes =>
      if connection.tcpAllocCb2 < bytes.length then none
      else if bytes = [] then some connection
      else some (connection.tcpRecvData bytes)

/-- What is asked of every window: it is not empty, it lies inside `buf2[0..size2)`, and the
subtraction that computes it does not wrap. -/
def WindowSafe (connection : Connected) : Prop :=
  0 < connection.tcpAllocCb2 ∧
    connection.len2 + connection.tcpAllocCb2 ≤ connection.size2 ∧
    connection.len2 ≤ connection.target

instance : DecidablePred WindowSafe := fun _ => inferInstanceAs (Decidable (_ ∧ _ ∧ _))

/-- No framing has happened on the object: so it leaves the constructor, and so a refused
`bind` leaves it. -/
def Unframed (connection : Connected) : Prop :=
  connection.buf2 = [] ∧ connection.packetLen = 0

theorem unframed_new : Unframed {} := ⟨rfl, rfl⟩

section Condition

variable (minLen maxLen : UInt64) (lener : LenGetter)

/-- A length whose window, cut to 32 bits, stays inside the buffer. For lengths below
`2 ^ 32` this says that the length lies between `min_len` and `max_len`. -/
def Fits (length : Nat) : Prop :=
  minLen.toNat ≤ length ∧
    minLen.toNat + (length - minLen.toNat) % 2 ^ 32 ≤ maxLen.toNat

/-- What the one-shot reading says about the bytes of some reads: every announced length
fits, and what is missing at the open end is no multiple of `2 ^ 32`. -/
def WithinBounds (stream : List Byte) : Prop :=
  (∀ length ∈ announced minLen.toNat (fun header => (lener header).toNat) stream,
    Fits minLen maxLen length) ∧
  missing minLen.toNat (fun header => (lener header).toNat) stream % 2 ^ 32 ≠ 0

def Bounded (reads : List Read) : Prop :=
  minLen.toNat % 2 ^ 32 ≤ maxLen.toNat ∧
    ∀ before, before <+: reads → WithinBounds minLen maxLen lener (before.flatMap Read.bytes)

end Condition

/-- How far one header or packet can be filled through windows cut to 32 bits, when its
first `start` bytes came before. -/
def reach (start goal : Nat) : Nat := start + (goal - start) % 2 ^ 32

/-- The connection after the bytes `stream`, as long as all windows so far were safe. The
complete packets of the stream lie within the buffer, the open end is `buf2`, and `buf2`
has not passed a multiple of `2 ^ 32` before its goal. -/
structure Tracks (minLen maxLen : UInt64) (lener : LenGetter) (stream : List Byte)
    (connection : Connected) (packets : List (List Byte)) : Prop where
  headerLen : connection.headerLen = minLen.toNat
  size2 : connection.size2 = maxLen.toNat
  installed : connection.lener = some lener
  split : stream = packets.flatten ++ connection.buf2
  complete : ∀ packet ∈ packets,
    Complete minLen.toNat (fun header => (lener header).toNat) packet
  stored : ∀ packet ∈ packets, packet.length ≤ maxLen.toNat
  opened : Open minLen.toNat (fun header => (lener header).toNat) connection.buf2
  header : connection.len2 < minLen.toNat →
    connection.packetLen = 0 ∧ connection.len2 ≤ reach 0 minLen.toNat
  packet : minLen.toNat ≤ connection.len2 →
    connection.packetLen = (lener (connection.buf2.take minLen.toNat)).toNat ∧
      minLen.toNat ≤ maxLen.toNat ∧
      (minLen.toNat ≤ connection.packetLen →
        connection.len2 ≤ reach minLen.toNat connection.packetLen)

variable {minLen maxLen : UInt64} {lener : LenGetter} {stream : List Byte}
  {connection : Connected} {packets : List (List Byte)}

theorem tracks_missing (positive : 0 < minLen.toNat)
    (tracks : Tracks minLen maxLen lener stream connection packets) :
    missing minLen.toNat (fun header => (lener header).toNat) stream =
      connection.target - connection.len2 := by
  have reading := cut_framed positive tracks.complete tracks.opened
  unfold missing Connected.target
  rw [tracks.split, reading]
  by_cases short : connection.len2 < minLen.toNat
  · have inHeader : connection.buf2.length < minLen.toNat := short
    rw [tracks.headerLen, if_pos short, if_pos inHeader]
    rfl
  · have beyond : ¬connection.buf2.length < minLen.toNat := short
    rw [tracks.headerLen, if_neg short, if_neg beyond,
      (tracks.packet (Nat.le_of_not_lt short)).1]
    rfl

theorem window_safe_local (positive : 0 < minLen.toNat)
    (tracks : Tracks minLen maxLen lener stream connection packets) :
    WindowSafe connection ↔
      minLen.toNat % 2 ^ 32 ≤ maxLen.toNat ∧ WithinBounds minLen maxLen lener stream := by
  have reading := cut_framed positive tracks.complete tracks.opened
  have gap := tracks_missing positive tracks
  have lengths : announced minLen.toNat (fun header => (lener header).toNat) stream =
      packets.map List.length ++ if connection.len2 < minLen.toNat then []
        else [connection.packetLen] := by
    unfold announced
    rw [tracks.split, reading]
    by_cases short : connection.len2 < minLen.toNat
    · have inHeader : connection.buf2.length < minLen.toNat := short
      simp only [if_pos short, if_pos inHeader]
    · have beyond : ¬connection.buf2.length < minLen.toNat := short
      simp only [if_neg short, if_neg beyond, (tracks.packet (Nat.le_of_not_lt short)).1]
  have finished : ∀ packet ∈ packets, Fits minLen maxLen packet.length := by
    intro packet member
    have long := (tracks.complete packet member).1
    have small := tracks.stored packet member
    refine ⟨long, ?_⟩
    omega
  unfold WindowSafe WithinBounds
  rw [gap, lengths]
  by_cases short : connection.len2 < minLen.toNat
  · -- The header is open: the window aims at `min_len`.
    obtain ⟨-, reached⟩ := tracks.header short
    have aim : connection.target = minLen.toNat := by
      unfold Connected.target
      rw [tracks.headerLen, if_pos short]
    have offered : connection.tcpAllocCb2 = (minLen.toNat - connection.len2) % 2 ^ 32 := by
      unfold Connected.tcpAllocCb2
      rw [aim, uvBufLen_sizeSub _ _ (by omega)]
    rw [offered, aim, tracks.size2, if_pos short, List.append_nil]
    unfold reach at reached
    constructor
    · rintro ⟨nonempty, inside, -⟩
      refine ⟨by omega, ?_, by omega⟩
      simpa using finished
    · rintro ⟨bounded, -, moving⟩
      exact ⟨by omega, by omega, by omega⟩
  · -- The header is complete: the window aims at the announced length.
    have beyond := Nat.le_of_not_lt short
    obtain ⟨-, roomy, reached⟩ := tracks.packet beyond
    have aim : connection.target = connection.packetLen := by
      unfold Connected.target
      rw [tracks.headerLen, if_neg short]
    rw [aim, tracks.size2, if_neg short]
    unfold reach at reached
    constructor
    · rintro ⟨nonempty, inside, ordered⟩
      have offered : connection.tcpAllocCb2 =
          (connection.packetLen - connection.len2) % 2 ^ 32 := by
        unfold Connected.tcpAllocCb2
        rw [aim, uvBufLen_sizeSub _ _ ordered]
      rw [offered] at nonempty inside
      refine ⟨by omega, ?_, by omega⟩
      intro length member
      rw [List.mem_append] at member
      rcases member with earlier | last
      · obtain ⟨packet, inPackets, rfl⟩ := List.mem_map.mp earlier
        exact finished packet inPackets
      · rw [List.mem_singleton] at last
        subst length
        have near := reached (by omega)
        exact ⟨by omega, by omega⟩
    · rintro ⟨-, fitting, moving⟩
      obtain ⟨long, inside⟩ := fitting connection.packetLen (by simp)
      have near := reached long
      have ordered : connection.len2 ≤ connection.packetLen := by omega
      have offered : connection.tcpAllocCb2 =
          (connection.packetLen - connection.len2) % 2 ^ 32 := by
        unfold Connected.tcpAllocCb2
        rw [aim, uvBufLen_sizeSub _ _ ordered]
      rw [offered]
      exact ⟨by omega, by omega, ordered⟩

theorem tracks_handed {next : Connected} {chunk : List Byte} (positive : 0 < minLen.toNat)
    (tracks : Tracks minLen maxLen lener stream connection packets)
    (complete : Complete minLen.toNat (fun header => (lener header).toNat)
      (connection.buf2 ++ chunk))
    (stored : (connection.buf2 ++ chunk).length ≤ maxLen.toNat)
    (headerLen : next.headerLen = connection.headerLen) (size2 : next.size2 = connection.size2)
    (installed : next.lener = connection.lener)
    (emptied : next.buf2 = []) (reset : next.packetLen = 0) :
    Tracks minLen maxLen lener (stream ++ chunk) next
      (packets ++ [connection.buf2 ++ chunk]) where
  headerLen := headerLen.trans tracks.headerLen
  size2 := size2.trans tracks.size2
  installed := installed.trans tracks.installed
  split := by simp [emptied, tracks.split]
  complete := by
    intro packet member
    rcases List.mem_append.mp member with earlier | last
    · exact tracks.complete packet earlier
    · rw [List.mem_singleton.mp last]
      exact complete
  stored := by
    intro packet member
    rcases List.mem_append.mp member with earlier | last
    · exact tracks.stored packet earlier
    · rw [List.mem_singleton.mp last]
      exact stored
  opened := by
    rw [emptied]
    exact Or.inl positive
  header := fun _ => ⟨reset, by simp [Connected.len2, emptied]⟩
  packet := by
    intro beyond
    simp only [Connected.len2, emptied, List.length_nil] at beyond
    omega

theorem tracks_filled {next : Connected} {chunk : List Byte}
    (tracks : Tracks minLen maxLen lener stream connection packets)
    (headerLen : next.headerLen = connection.headerLen) (size2 : next.size2 = connection.size2)
    (installed : next.lener = connection.lener)
    (filled : next.buf2 = connection.buf2 ++ chunk)
    (opened : Open minLen.toNat (fun header => (lener header).toNat) next.buf2)
    (header : next.len2 < minLen.toNat →
      next.packetLen = 0 ∧ next.len2 ≤ reach 0 minLen.toNat)
    (packet : minLen.toNat ≤ next.len2 →
      next.packetLen = (lener (next.buf2.take minLen.toNat)).toNat ∧
        minLen.toNat ≤ maxLen.toNat ∧
        (minLen.toNat ≤ next.packetLen → next.len2 ≤ reach minLen.toNat next.packetLen)) :
    Tracks minLen maxLen lener (stream ++ chunk) next packets where
  headerLen := headerLen.trans tracks.headerLen
  size2 := size2.trans tracks.size2
  installed := installed.trans tracks.installed
  split := by rw [filled, tracks.split, List.append_assoc]
  complete := tracks.complete
  stored := tracks.stored
  opened := opened
  header := header
  packet := packet

theorem safe_room (safe : WindowSafe connection) {chunk : List Byte}
    (offered : chunk.length ≤ connection.tcpAllocCb2) :
    connection.len2 + chunk.length ≤ connection.size2 ∧
      connection.len2 + chunk.length ≤ connection.target ∧
      chunk.length ≤ (connection.target - connection.len2) % 2 ^ 32 ∧
      connection.len2 < connection.target := by
  obtain ⟨nonempty, inside, ordered⟩ := safe
  have window : connection.tcpAllocCb2 = (connection.target - connection.len2) % 2 ^ 32 :=
    uvBufLen_sizeSub _ _ ordered
  rw [window] at offered nonempty inside
  refine ⟨by omega, by omega, offered, by omega⟩

/-- The value of `packet_len` with which `tcp_recv_cb2` decides about a chunk. -/
def lengthAfter (connection : Connected) (chunk : List Byte) : Nat :=
  if connection.packetLen = 0 ∧ (connection.buf2 ++ chunk).length = connection.headerLen then
    { connection with buf2 := connection.buf2 ++ chunk : Connected }.measure
  else connection.packetLen

theorem tcpRecvPacket_cases (connection : Connected) :
    (connection.tcpRecvPacket.buf2 = [] ∧ connection.tcpRecvPacket.packetLen = 0 ∧
        connection.packetLen ≠ 0 ∧ connection.len2 = connection.packetLen) ∨
      (connection.tcpRecvPacket = connection ∧
        (connection.packetLen = 0 ∨ connection.len2 ≠ connection.packetLen)) := by
  unfold Connected.tcpRecvPacket
  by_cases ready : connection.packetLen ≠ 0 ∧ connection.len2 = connection.packetLen
  · rw [if_pos ready]
    exact Or.inl ⟨rfl, rfl, ready⟩
  · rw [if_neg ready]
    exact Or.inr ⟨rfl, by omega⟩

theorem tcpRecvPacket_frame (connection : Connected) :
    connection.tcpRecvPacket.headerLen = connection.headerLen ∧
      connection.tcpRecvPacket.size2 = connection.size2 ∧
      connection.tcpRecvPacket.lener = connection.lener := by
  unfold Connected.tcpRecvPacket
  split <;> exact ⟨rfl, rfl, rfl⟩

theorem tcpRecvData_frame (connection : Connected) (chunk : List Byte) :
    (connection.tcpRecvData chunk).headerLen = connection.headerLen ∧
      (connection.tcpRecvData chunk).size2 = connection.size2 ∧
      (connection.tcpRecvData chunk).lener = connection.lener := by
  unfold Connected.tcpRecvData
  dsimp only
  split
  · split
    · exact ⟨rfl, rfl, rfl⟩
    · split
      · exact ⟨rfl, rfl, rfl⟩
      · exact tcpRecvPacket_frame _
  · exact tcpRecvPacket_frame _

/-- All that `tcp_recv_cb2` can do with a chunk: hand over the packet it completes, or keep
the bytes. They are kept when the packet is not complete and also when the length just
read is out of range. -/
theorem tcpRecvData_cases (connection : Connected) (chunk : List Byte) :
    ((connection.tcpRecvData chunk).buf2 = [] ∧
        (connection.tcpRecvData chunk).packetLen = 0 ∧
        lengthAfter connection chunk ≠ 0 ∧
        (connection.buf2 ++ chunk).length = lengthAfter connection chunk) ∨
      ((connection.tcpRecvData chunk).buf2 = connection.buf2 ++ chunk ∧
        (connection.tcpRecvData chunk).packetLen = lengthAfter connection chunk ∧
        (lengthAfter connection chunk = 0 ∨
          (connection.buf2 ++ chunk).length ≠ lengthAfter connection chunk ∨
          lengthAfter connection chunk < connection.headerLen ∨
          connection.size2 < lengthAfter connection chunk)) := by
  unfold Connected.tcpRecvData lengthAfter Connected.len2
  dsimp only
  by_cases asked : connection.packetLen = 0 ∧
      (connection.buf2 ++ chunk).length = connection.headerLen
  · rw [if_pos asked, if_pos asked]
    split
    · rename_i tooShort
      exact Or.inr ⟨rfl, rfl, Or.inr (Or.inr (Or.inl tooShort))⟩
    · split
      · rename_i tooLong
        exact Or.inr ⟨rfl, rfl, Or.inr (Or.inr (Or.inr tooLong))⟩
      · rcases tcpRecvPacket_cases _ with ⟨emptied, reset, nonzero, full⟩ | ⟨same, unready⟩
        · exact Or.inl ⟨emptied, reset, nonzero, full⟩
        · rw [same]
          exact Or.inr ⟨rfl, rfl, unready.elim Or.inl fun apart => Or.inr (Or.inl apart)⟩
  · rw [if_neg asked, if_neg asked]
    rcases tcpRecvPacket_cases _ with ⟨emptied, reset, nonzero, full⟩ | ⟨same, unready⟩
    · exact Or.inl ⟨emptied, reset, nonzero, full⟩
    · rw [same]
      exact Or.inr ⟨rfl, rfl, unready.elim Or.inl fun apart => Or.inr (Or.inl apart)⟩

theorem lengthAfter_open {chunk : List Byte}
    (tracks : Tracks minLen maxLen lener stream connection packets)
    (short : (connection.buf2 ++ chunk).length < minLen.toNat) :
    lengthAfter connection chunk = 0 := by
  have earlier : connection.len2 < minLen.toNat := by
    rw [List.length_append] at short
    exact Nat.lt_of_le_of_lt (Nat.le_add_right _ _) short
  unfold lengthAfter
  rw [tracks.headerLen, if_neg (by omega)]
  exact (tracks.header earlier).1

theorem lengthAfter_announced {chunk : List Byte} (positive : 0 < minLen.toNat)
    (tracks : Tracks minLen maxLen lener stream connection packets)
    (safe : WindowSafe connection) (offered : chunk.length ≤ connection.tcpAllocCb2)
    (long : minLen.toNat ≤ (connection.buf2 ++ chunk).length) :
    lengthAfter connection chunk =
      (lener ((connection.buf2 ++ chunk).take minLen.toNat)).toNat := by
  obtain ⟨-, within, -, unfinished⟩ := safe_room safe offered
  have filledLen : (connection.buf2 ++ chunk).length = connection.len2 + chunk.length :=
    List.length_append
  unfold Connected.target at within unfinished
  rw [tracks.headerLen] at within unfinished
  unfold lengthAfter
  rw [tracks.headerLen]
  by_cases short : connection.len2 < minLen.toNat
  · rw [if_pos short] at within
    have full : (connection.buf2 ++ chunk).length = minLen.toNat := by omega
    have header : (connection.buf2 ++ chunk).take minLen.toNat = connection.buf2 ++ chunk := by
      rw [← full, List.take_length]
    rw [if_pos ⟨(tracks.header short).1, full⟩, header]
    simp only [Connected.measure, tracks.installed]
  · rw [if_neg short] at unfinished
    have beyond : minLen.toNat ≤ connection.buf2.length := Nat.le_of_not_lt short
    rw [if_neg (by omega), (tracks.packet beyond).1, List.take_append_of_le_length beyond]

theorem filled_reach {chunk : List Byte}
    (tracks : Tracks minLen maxLen lener stream connection packets)
    (safe : WindowSafe connection) (offered : chunk.length ≤ connection.tcpAllocCb2) :
    ((connection.buf2 ++ chunk).length < minLen.toNat →
      (connection.buf2 ++ chunk).length ≤ reach 0 minLen.toNat) ∧
    (minLen.toNat ≤ (connection.buf2 ++ chunk).length →
      (connection.buf2 ++ chunk).length ≤ maxLen.toNat ∧
      ((connection.buf2 ++ chunk).length = minLen.toNat ∨
        (connection.packetLen = lengthAfter connection chunk ∧
          (connection.buf2 ++ chunk).length ≤ connection.packetLen ∧
          (connection.buf2 ++ chunk).length ≤ reach minLen.toNat connection.packetLen))) := by
  obtain ⟨room, within, window, unfinished⟩ := safe_room safe offered
  have filledLen : (connection.buf2 ++ chunk).length = connection.len2 + chunk.length :=
    List.length_append
  rw [filledLen]
  rw [tracks.size2] at room
  unfold Connected.target at within window unfinished
  rw [tracks.headerLen] at within window unfinished
  unfold reach
  by_cases short : connection.len2 < minLen.toNat
  · rw [if_pos short] at within window
    have reached := (tracks.header short).2
    unfold reach at reached
    exact ⟨fun _ => by omega, fun _ => ⟨room, Or.inl (by omega)⟩⟩
  · rw [if_neg short] at within window unfinished
    have beyond := Nat.le_of_not_lt short
    have reached := (tracks.packet beyond).2.2 (by omega)
    unfold reach at reached
    have kept : connection.packetLen = lengthAfter connection chunk := by
      unfold lengthAfter
      rw [if_neg (by omega)]
    exact ⟨fun less => by omega, fun _ => ⟨room, Or.inr ⟨kept, within, by omega⟩⟩⟩

theorem tracks_data {chunk : List Byte} (positive : 0 < minLen.toNat)
    (tracks : Tracks minLen maxLen lener stream connection packets)
    (safe : WindowSafe connection) (offered : chunk.length ≤ connection.tcpAllocCb2) :
    ∃ packets, Tracks minLen maxLen lener (stream ++ chunk)
      (connection.tcpRecvData chunk) packets := by
  obtain ⟨headerLen, size2, installed⟩ := tcpRecvData_frame connection chunk
  obtain ⟨inHeader, inPacket⟩ := filled_reach tracks safe offered
  rcases tcpRecvData_cases connection chunk with
    ⟨emptied, reset, nonzero, full⟩ | ⟨filled, read, kept⟩
  · -- A packet is handed over.
    have long : minLen.toNat ≤ (connection.buf2 ++ chunk).length := by
      by_contra short
      exact nonzero (lengthAfter_open tracks (Nat.lt_of_not_le short))
    have announced := lengthAfter_announced positive tracks safe offered long
    exact ⟨_, tracks_handed positive tracks ⟨long, announced.symm.trans full.symm⟩
      (inPacket long).1 headerLen size2 installed emptied reset⟩
  · refine ⟨packets, tracks_filled tracks headerLen size2 installed filled ?_ ?_ ?_⟩
    · rw [filled]
      by_cases short : (connection.buf2 ++ chunk).length < minLen.toNat
      · exact Or.inl short
      · have long := Nat.le_of_not_lt short
        have announced := lengthAfter_announced positive tracks safe offered long
        obtain ⟨stored, position⟩ := inPacket long
        rw [tracks.headerLen, tracks.size2] at kept
        refine Or.inr ?_
        dsimp only
        rw [← announced]
        omega
    · intro short
      rw [Connected.len2, filled] at short ⊢
      exact ⟨read.trans (lengthAfter_open tracks short), inHeader short⟩
    · intro long
      rw [Connected.len2, filled] at long ⊢
      have announced := lengthAfter_announced positive tracks safe offered long
      obtain ⟨stored, position⟩ := inPacket long
      refine ⟨read.trans announced, by omega, ?_⟩
      intro _
      rw [read]
      rcases position with exactly | ⟨same, -, reached⟩
      · unfold reach
        omega
      · rw [← same]
        exact reached

/-- One read after a safe window keeps the connection in step with the reading. -/
theorem tracks_step {next : Connected} (positive : 0 < minLen.toNat) (read : Read)
    (tracks : Tracks minLen maxLen lener stream connection packets)
    (safe : WindowSafe connection) (taken : step connection read = some next) :
    ∃ packets, Tracks minLen maxLen lener (stream ++ read.bytes) next packets := by
  cases read with
  | failed =>
      cases taken
      rw [Read.bytes, List.append_nil]
      exact ⟨packets, { tracks with }⟩
  | chunk bytes =>
      simp only [step] at taken
      split at taken
      · cases taken
      · rename_i allowed
        split at taken
        · rename_i nothing
          cases taken
          rw [Read.bytes, nothing, List.append_nil]
          exact ⟨packets, tracks⟩
        · cases taken
          exact tracks_data positive tracks safe (Nat.le_of_not_lt allowed)

-- Along a run the windows are safe exactly as far as the reading stays within bounds.
theorem windows_safe_tracked {last : Connected} (positive : 0 < minLen.toNat)
    (header : minLen.toNat % 2 ^ 32 ≤ maxLen.toNat)
    (tracks : Tracks minLen maxLen lener stream connection packets) (reads : List Read)
    (run : replay step connection reads = some last) :
    Throughout step WindowSafe connection reads ↔
      ∀ before, before <+: reads →
        WithinBounds minLen maxLen lener (stream ++ before.flatMap Read.bytes) := by
  induction reads generalizing stream connection packets with
  | nil =>
      simp only [Throughout, List.prefix_nil, forall_eq, List.flatMap_nil, List.append_nil]
      rw [window_safe_local positive tracks]
      exact and_iff_right header
  | cons read rest ih =>
      obtain ⟨next, taken, tail⟩ := replay_cons run
      rw [forall_initial_cons]
      simp only [Throughout, taken, Option.elim_some, List.flatMap_nil, List.append_nil,
        List.flatMap_cons, ← List.append_assoc]
      rw [window_safe_local positive tracks, and_iff_right header]
      refine and_congr_right fun here => ?_
      have safe := (window_safe_local positive tracks).mpr ⟨header, here⟩
      obtain ⟨more, tracked⟩ := tracks_step positive read tracks safe taken
      exact ih tracked tail

theorem bind_tracks {connection bound : Connected} {getter : Bool}
    (unframed : Unframed connection)
    (accepted : connection.bind getter minLen maxLen (some lener) = (0, bound)) :
    0 < minLen.toNat ∧ Tracks minLen maxLen lener [] bound [] := by
  obtain ⟨emptied, reset⟩ := unframed
  unfold Connected.bind Connected.bindInner at accepted
  split at accepted
  · cases accepted
  · split at accepted
    · cases accepted
    · rename_i refused
      have nonzero : minLen ≠ 0 := fun zero => refused (Or.inl zero)
      have apart : minLen.toNat ≠ 0 := fun zero => nonzero (UInt64.toNat.inj zero)
      have positive : 0 < minLen.toNat := by omega
      obtain ⟨-, rfl⟩ := Prod.mk.inj accepted
      refine ⟨positive, ?_⟩
      exact {
        headerLen := rfl
        size2 := rfl
        installed := rfl
        split := by simp [emptied]
        complete := by simp
        stored := by simp
        opened := Or.inl (by simpa [emptied] using positive)
        header := fun _ => ⟨reset, by simp [Connected.len2, emptied]⟩
        packet := fun beyond => by
          simp only [Connected.len2, emptied, List.length_nil] at beyond
          omega }

/-- The windows that `tcp_alloc_cb2` offers along a run are all safe exactly when the
arguments of `bind` and the peer's bytes stay within bounds. -/
theorem windows_safe_iff (connection bound : Connected) (unframed : Unframed connection)
    (getter : Bool) (minLen maxLen : UInt64) (lener : LenGetter)
    (accepted : connection.bind getter minLen maxLen (some lener) = (0, bound))
    (reads : List Read) (last : Connected) (run : replay step bound reads = some last) :
    Throughout step WindowSafe bound reads ↔ Bounded minLen maxLen lener reads := by
  obtain ⟨positive, tracks⟩ := bind_tracks unframed accepted
  unfold Bounded
  constructor
  · intro safe
    have header := ((window_safe_local positive tracks).mp (throughout_first safe)).1
    have within := (windows_safe_tracked positive header tracks reads run).mp safe
    exact ⟨header, by simpa using within⟩
  · rintro ⟨header, within⟩
    exact (windows_safe_tracked positive header tracks reads run).mpr (by simpa using within)

def lengthByte : LenGetter := fun header => (header.getD 1 0).toUInt64

def boundExample : Connected :=
  (Connected.bind {} true 2 4 (some lengthByte)).2

def twoPackets : List Read := [.chunk [7], .chunk [3], .chunk [1], .chunk [7, 2]]

theorem windows_safe_iff_two_packets : Bounded 2 4 lengthByte twoPackets :=
  (windows_safe_iff {} boundExample unframed_new true 2 4 lengthByte
    (Prod.ext (by decide) rfl) twoPackets _
    (Option.some_get (by decide : (replay step boundExample twoPackets).isSome)).symm).mp
    (by decide)

/-- A peer that announces nine bytes to a four byte buffer: the report does not stop the
reading, and the next window ends five bytes behind the allocation. -/
theorem window_unsafe_announced : ¬∀ (connection bound : Connected) (getter : Bool)
    (minLen maxLen : UInt64) (lener : LenGetter) (reads : List Read) (last : Connected),
    Unframed connection → connection.bind getter minLen maxLen (some lener) = (0, bound) →
    replay step bound reads = some last → WindowSafe last := by
  intro claimed
  have running : (replay step boundExample [.chunk [7, 9]]).isSome := by decide
  exact absurd (claimed {} boundExample true 2 4 lengthByte [.chunk [7, 9]] _ unframed_new
    (Prod.ext (by decide) rfl) (Option.some_get running).symm) (by decide +revert)

end Cocoflow.PacketFraming
