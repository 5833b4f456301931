import Mathlib.Data.List.Basic
import Cocoflow.LabelledRuns
import Cocoflow.LengthFraming
import Cocoflow.TcpConnection
import Cocoflow.PacketFraming

/-!
The packets that `tcp_recv_cb2` hands to the sequencer are those of the one-shot bounded
reading of the peer's bytes, however the bytes are split into reads, until a header announces a
length out of range. That is reported with the read that completes the header. The reading of the
socket goes on behind it, and what is handed over then is bounded by nothing.
-/

namespace Cocoflow.ReferenceFraming

open LabelledRuns LengthFraming TcpConnection PacketFraming

def reportOf : Fault → Report
  | .tooShort => .packetLengthTooShort
  | .tooLong => .packetLengthTooLong

def framingReports (connection : Connected) : List Report :=
  connection.reported.filter fun code => code ≠ .failure

section Following

variable (minLen maxLen : UInt64) (lener : LenGetter)

/-- The bounded reading that `bind` asks for. -/
def reference (stream : List Byte) : List (List Byte) × Option Fault :=
  frames minLen.toNat maxLen.toNat (fun header => (lener header).toNat) stream

/-- `packet_len` is zero in an open header and the announced length behind it. -/
def Measured (connection : Connected) : Prop :=
  connection.packetLen =
    if connection.len2 < minLen.toNat then 0
    else (lener (connection.buf2.take minLen.toNat)).toNat

/-- The connection after the bytes `stream`: the packets handed over, the open end in `buf2`
and how the reading ends there. -/
structure Follows (start : Connected) (stream : List Byte) (connection : Connected)
    (packets : List (List Byte)) (fault : Option Fault) : Prop where
  headerLen : connection.headerLen = minLen.toNat
  size2 : connection.size2 = maxLen.toNat
  installed : connection.lener = some lener
  split : stream = packets.flatten ++ connection.buf2
  complete : ∀ packet ∈ packets,
    Complete minLen.toNat (fun header => (lener header).toNat) packet
  bounded : ∀ packet ∈ packets, packet.length ≤ maxLen.toNat
  ends : Ends minLen.toNat maxLen.toNat (fun header => (lener header).toNat) connection.buf2 fault
  measured : Measured minLen lener connection
  handed : connection.handed = start.handed ++ packets
  reported : framingReports connection = framingReports start ++ (fault.map reportOf).toList

end Following

variable {minLen maxLen : UInt64} {lener : LenGetter} {start connection next : Connected}
  {stream chunk : List Byte} {packets : List (List Byte)}

theorem offered_within
    (follows : Follows minLen maxLen lener start stream connection packets none)
    (offered : chunk.length ≤ connection.tcpAllocCb2) :
    (connection.len2 < minLen.toNat ∧ connection.len2 + chunk.length ≤ minLen.toNat) ∨
      (minLen.toNat ≤ connection.len2 ∧ minLen.toNat ≤ connection.packetLen ∧
        connection.packetLen ≤ maxLen.toNat ∧
        connection.len2 + chunk.length ≤ connection.packetLen) := by
  have measured := follows.measured
  unfold Measured at measured
  unfold Connected.tcpAllocCb2 Connected.target at offered
  rw [follows.headerLen] at offered
  by_cases short : connection.len2 < minLen.toNat
  · rw [if_pos short, uvBufLen_sizeSub _ _ (by omega)] at offered
    exact Or.inl ⟨short, by omega⟩
  · rw [if_neg short] at measured offered
    rcases follows.ends with open_ | ⟨long, small, unfinished⟩
    · exact absurd open_ short
    · dsimp only at long small unfinished
      rw [← measured] at long small unfinished
      change connection.len2 < connection.packetLen at unfinished
      rw [uvBufLen_sizeSub _ _ (by omega)] at offered
      exact Or.inr ⟨by omega, long, small, by omega⟩

theorem follows_kept {before after : Option Fault}
    (follows : Follows minLen maxLen lener start stream connection packets before)
    (headerLen : next.headerLen = connection.headerLen) (size2 : next.size2 = connection.size2)
    (installed : next.lener = connection.lener) (filled : next.buf2 = connection.buf2 ++ chunk)
    (handed : next.handed = connection.handed)
    (ends : Ends minLen.toNat maxLen.toNat (fun header => (lener header).toNat) next.buf2 after)
    (measured : Measured minLen lener next)
    (reported : framingReports next = framingReports start ++ (after.map reportOf).toList) :
    Follows minLen maxLen lener start (stream ++ chunk) next packets after where
  headerLen := headerLen.trans follows.headerLen
  size2 := size2.trans follows.size2
  installed := installed.trans follows.installed
  split := by rw [filled, follows.split, List.append_assoc]
  complete := follows.complete
  bounded := follows.bounded
  ends := ends
  measured := measured
  handed := handed.trans follows.handed
  reported := reported

theorem follows_handed (positive : 0 < minLen.toNat)
    (follows : Follows minLen maxLen lener start stream connection packets none)
    (headerLen : next.headerLen = connection.headerLen) (size2 : next.size2 = connection.size2)
    (installed : next.lener = connection.lener) (emptied : next.buf2 = [])
    (reset : next.packetLen = 0)
    (handed : next.handed = connection.handed ++ [connection.buf2 ++ chunk])
    (reported : framingReports next = framingReports connection)
    (complete : Complete minLen.toNat (fun header => (lener header).toNat)
      (connection.buf2 ++ chunk))
    (bounded : (connection.buf2 ++ chunk).length ≤ maxLen.toNat) :
    Follows minLen maxLen lener start (stream ++ chunk) next
      (packets ++ [connection.buf2 ++ chunk]) none where
  headerLen := headerLen.trans follows.headerLen
  size2 := size2.trans follows.size2
  installed := installed.trans follows.installed
  split := by simp [emptied, follows.split]
  complete := by
    intro packet member
    rcases List.mem_append.mp member with earlier | last
    · exact follows.complete packet earlier
    · rw [List.mem_singleton.mp last]
      exact complete
  bounded := by
    intro packet member
    rcases List.mem_append.mp member with earlier | last
    · exact follows.bounded packet earlier
    · rw [List.mem_singleton.mp last]
      exact bounded
  ends := by
    rw [emptied]
    exact Or.inl positive
  measured := by
    unfold Measured
    rw [reset, Connected.len2, emptied, if_pos (by simpa using positive)]
  handed := by rw [handed, follows.handed, List.append_assoc]
  reported := reported.trans follows.reported

def filledWith (connection : Connected) (chunk : List Byte) (length : Nat) : Connected :=
  { connection with buf2 := connection.buf2 ++ chunk, packetLen := length }

theorem follows_packet (positive : 0 < minLen.toNat)
    (follows : Follows minLen maxLen lener start stream connection packets none) {length : Nat}
    (measured : Measured minLen lener (filledWith connection chunk length))
    (place : (connection.buf2 ++ chunk).length < minLen.toNat ∨
      minLen.toNat ≤ (connection.buf2 ++ chunk).length ∧ minLen.toNat ≤ length ∧
        length ≤ maxLen.toNat ∧ (connection.buf2 ++ chunk).length ≤ length) :
    ∃ packets, Follows minLen maxLen lener start (stream ++ chunk)
      (filledWith connection chunk length).tcpRecvPacket packets none := by
  have announced : minLen.toNat ≤ (connection.buf2 ++ chunk).length →
      length = (lener ((connection.buf2 ++ chunk).take minLen.toNat)).toNat := fun long =>
    Eq.trans measured (if_neg (Nat.not_lt.mpr long))
  have unread : (connection.buf2 ++ chunk).length < minLen.toNat → length = 0 := fun short =>
    Eq.trans measured (if_pos short)
  unfold Connected.tcpRecvPacket
  by_cases full : (filledWith connection chunk length).packetLen ≠ 0 ∧
      (filledWith connection chunk length).len2 = (filledWith connection chunk length).packetLen
  · rw [if_pos full]
    change length ≠ 0 ∧ (connection.buf2 ++ chunk).length = length at full
    rcases place with short | ⟨header, long, small, -⟩
    · exact absurd (unread short) full.1
    · refine ⟨_, follows_handed positive follows rfl rfl rfl rfl rfl rfl rfl
        ⟨header, (announced header).symm.trans full.2.symm⟩ ?_⟩
      omega
  · rw [if_neg full]
    change ¬(length ≠ 0 ∧ (connection.buf2 ++ chunk).length = length) at full
    refine ⟨packets, follows_kept follows rfl rfl rfl rfl rfl ?_ measured follows.reported⟩
    rcases place with short | ⟨header, long, small, within⟩
    · exact Or.inl short
    · refine Or.inr ?_
      dsimp only [filledWith]
      rw [← announced header]
      exact ⟨long, small, by omega⟩

theorem framingReports_broken {code : Report} (framing : code ≠ .failure) :
    framingReports (connection.breakAllRecv code) = framingReports connection ++ [code] := by
  simp [framingReports, Connected.breakAllRecv, framing]

theorem tcpRecvData_asks (follows : Follows minLen maxLen lener start stream connection packets none)
    (reset : connection.packetLen = 0)
    (full : (connection.buf2 ++ chunk).length = minLen.toNat) :
    connection.tcpRecvData chunk =
      let announced := (lener (connection.buf2 ++ chunk)).toNat
      if announced < minLen.toNat then
        (filledWith connection chunk announced).breakAllRecv .packetLengthTooShort
      else if maxLen.toNat < announced then
        (filledWith connection chunk announced).breakAllRecv .packetLengthTooLong
      else (filledWith connection chunk announced).tcpRecvPacket := by
  have size : ({ connection with buf2 := connection.buf2 ++ chunk } : Connected).measure =
      (lener (connection.buf2 ++ chunk)).toNat := by
    simp only [Connected.measure, follows.installed]
  rw [← follows.headerLen] at full ⊢
  rw [← follows.size2, ← size]
  unfold Connected.tcpRecvData
  exact if_pos ⟨reset, full⟩

theorem tcpRecvData_fills
    (unasked : ¬(connection.packetLen = 0 ∧
      (connection.buf2 ++ chunk).length = connection.headerLen)) :
    connection.tcpRecvData chunk =
      (filledWith connection chunk connection.packetLen).tcpRecvPacket := by
  unfold Connected.tcpRecvData
  exact if_neg unasked

theorem filledWith_measured {length : Nat}
    (announced : minLen.toNat ≤ (connection.buf2 ++ chunk).length →
      length = (lener ((connection.buf2 ++ chunk).take minLen.toNat)).toNat)
    (reset : (connection.buf2 ++ chunk).length < minLen.toNat → length = 0) :
    Measured minLen lener (filledWith connection chunk length) := by
  unfold Measured
  change length = if (connection.buf2 ++ chunk).length < minLen.toNat then 0
    else (lener ((connection.buf2 ++ chunk).take minLen.toNat)).toNat
  split
  · rename_i short
    exact reset short
  · rename_i long
    exact announced (Nat.le_of_not_lt long)

theorem follows_header (positive : 0 < minLen.toNat)
    (follows : Follows minLen maxLen lener start stream connection packets none)
    (reset : connection.packetLen = 0)
    (full : (connection.buf2 ++ chunk).length = minLen.toNat) :
    ∃ packets fault, Follows minLen maxLen lener start (stream ++ chunk)
      (connection.tcpRecvData chunk) packets fault := by
  have whole : (connection.buf2 ++ chunk).take minLen.toNat = connection.buf2 ++ chunk := by
    rw [← full, List.take_length]
  have measured : Measured minLen lener
      (filledWith connection chunk (lener (connection.buf2 ++ chunk)).toNat) :=
    filledWith_measured (fun _ => by rw [whole]) fun short => by omega
  rw [tcpRecvData_asks follows reset full]
  dsimp only
  split
  · rename_i less
    refine ⟨packets, some .tooShort, follows_kept follows rfl rfl rfl rfl rfl
      ⟨Nat.le_of_eq full.symm, ?_⟩ measured ?_⟩
    · change (lener ((connection.buf2 ++ chunk).take minLen.toNat)).toNat < minLen.toNat
      rw [whole]
      exact less
    · rw [framingReports_broken (by simp)]
      exact congrArg (· ++ [_]) (follows.reported.trans (List.append_nil _))
  · rename_i enough
    split
    · rename_i more
      refine ⟨packets, some .tooLong, follows_kept follows rfl rfl rfl rfl rfl
        ⟨Nat.le_of_eq full.symm, ?_⟩ measured ?_⟩
      · change minLen.toNat ≤ (lener ((connection.buf2 ++ chunk).take minLen.toNat)).toNat ∧
          maxLen.toNat < (lener ((connection.buf2 ++ chunk).take minLen.toNat)).toNat
        rw [whole]
        exact ⟨Nat.le_of_not_lt enough, more⟩
      · rw [framingReports_broken (by simp)]
        exact congrArg (· ++ [_]) (follows.reported.trans (List.append_nil _))
    · rename_i bounded
      have place : minLen.toNat ≤ (connection.buf2 ++ chunk).length ∧
          minLen.toNat ≤ (lener (connection.buf2 ++ chunk)).toNat ∧
          (lener (connection.buf2 ++ chunk)).toNat ≤ maxLen.toNat ∧
          (connection.buf2 ++ chunk).length ≤ (lener (connection.buf2 ++ chunk)).toNat := by
        omega
      obtain ⟨after, tracked⟩ :=
        follows_packet positive follows measured (Or.inr place)
      exact ⟨after, none, tracked⟩

theorem follows_data (positive : 0 < minLen.toNat)
    (follows : Follows minLen maxLen lener start stream connection packets none)
    (offered : chunk.length ≤ connection.tcpAllocCb2) :
    ∃ packets fault, Follows minLen maxLen lener start (stream ++ chunk)
      (connection.tcpRecvData chunk) packets fault := by
  have within := offered_within follows offered
  have measured := follows.measured
  unfold Measured at measured
  have total : (connection.buf2 ++ chunk).length = connection.len2 + chunk.length :=
    List.length_append
  by_cases asked : connection.packetLen = 0 ∧
      (connection.buf2 ++ chunk).length = connection.headerLen
  · exact follows_header positive follows asked.1 (asked.2.trans follows.headerLen)
  · rw [tcpRecvData_fills asked]
    rw [follows.headerLen] at asked
    have place : (connection.buf2 ++ chunk).length < minLen.toNat ∨
        minLen.toNat ≤ (connection.buf2 ++ chunk).length ∧
          minLen.toNat ≤ connection.packetLen ∧ connection.packetLen ≤ maxLen.toNat ∧
          (connection.buf2 ++ chunk).length ≤ connection.packetLen := by
      rcases within with ⟨short, room⟩ | ⟨header, long, small, room⟩
      · rw [if_pos short] at measured
        omega
      · omega
    have still : Measured minLen lener
        (filledWith connection chunk connection.packetLen) := by
      refine filledWith_measured (fun long => ?_) fun short => ?_
      · have beyond : ¬connection.len2 < minLen.toNat := by
          intro short
          rw [if_pos short] at measured
          omega
        rw [if_neg beyond] at measured
        rw [measured, List.take_append_of_le_length (Nat.le_of_not_lt beyond)]
      · have earlier : connection.len2 < minLen.toNat := by omega
        rw [if_pos earlier] at measured
        exact measured
    obtain ⟨after, tracked⟩ := follows_packet positive follows still place
    exact ⟨after, none, tracked⟩

theorem follows_step (positive : 0 < minLen.toNat) (read : Read)
    (follows : Follows minLen maxLen lener start stream connection packets none)
    (taken : step connection read = some next) :
    ∃ packets fault, Follows minLen maxLen lener start (stream ++ read.bytes) next packets
      fault := by
  cases read with
  | failed =>
      cases taken
      rw [Read.bytes, List.append_nil]
      refine ⟨packets, none, { follows with reported := ?_ }⟩
      rw [← follows.reported]
      simp [framingReports, Connected.breakAllRecv]
  | chunk bytes =>
      simp only [step] at taken
      split at taken
      · cases taken
      · rename_i offered
        split at taken
        · rename_i nothing
          cases taken
          rw [Read.bytes, nothing, List.append_nil]
          exact ⟨packets, none, follows⟩
        · cases taken
          exact follows_data positive follows (Nat.le_of_not_lt offered)

theorem follows_reference {fault : Option Fault} (positive : 0 < minLen.toNat)
    (follows : Follows minLen maxLen lener start stream connection packets fault) :
    reference minLen maxLen lener stream = (packets, fault) := by
  unfold reference
  rw [follows.split]
  exact frames_framed positive follows.complete follows.bounded follows.ends

theorem faulted_reference {fault : Fault} (positive : 0 < minLen.toNat)
    (follows : Follows minLen maxLen lener start stream connection packets (some fault))
    (more : List Byte) :
    reference minLen maxLen lener (stream ++ more) = (packets, some fault) := by
  unfold reference
  rw [follows.split, List.append_assoc]
  exact frames_framed positive follows.complete follows.bounded (ends_append more follows.ends)

/-- The connection follows the bounded reading up to the read with which it finds the first
fault, or to the end. -/
theorem follows_run {last : Connected} (positive : 0 < minLen.toNat) (reads : List Read)
    (follows : Follows minLen maxLen lener start stream connection packets none)
    (run : replay step connection reads = some last) :
    ∃ before after middle packets fault, reads = before ++ after ∧
      replay step connection before = some middle ∧ replay step middle after = some last ∧
      Follows minLen maxLen lener start (stream ++ before.flatMap Read.bytes) middle packets
        fault ∧
      (fault = none → after = []) ∧
      ∀ earlier, earlier <+: before → earlier ≠ before →
        (reference minLen maxLen lener (stream ++ earlier.flatMap Read.bytes)).2 = none := by
  have here : (reference minLen maxLen lener (stream ++ [].flatMap Read.bytes)).2 = none := by
    rw [List.flatMap_nil, List.append_nil, follows_reference positive follows]
  induction reads generalizing stream connection packets with
  | nil =>
      cases run
      refine ⟨[], [], _, packets, none, rfl, rfl, rfl, ?_, fun _ => rfl, ?_⟩
      · rw [List.flatMap_nil, List.append_nil]
        exact follows
      · intro earlier begins apart
        exact absurd (List.prefix_nil.mp begins) apart
  | cons read rest ih =>
      obtain ⟨next, taken, tail⟩ := replay_cons run
      obtain ⟨more, fault, further⟩ := follows_step positive read follows taken
      cases fault with
      | some fault =>
          refine ⟨[read], rest, next, more, some fault, rfl, ?_, tail, ?_, by simp, ?_⟩
          · simp [replay, taken]
          · simpa using further
          · intro earlier begins apart
            rcases List.prefix_cons_iff.mp begins with rfl | ⟨inner, rfl, empty⟩
            · exact here
            · exact absurd (congrArg (read :: ·) (List.prefix_nil.mp empty)) apart
      | none =>
          have there : (reference minLen maxLen lener
              (stream ++ read.bytes ++ [].flatMap Read.bytes)).2 = none := by
            rw [List.flatMap_nil, List.append_nil, follows_reference positive further]
          obtain ⟨before, after, middle, all, fault, cut, first, second, reached, open_, quiet⟩ :=
            ih further tail there
          refine ⟨read :: before, after, middle, all, fault, by rw [cut]; rfl, ?_, second, ?_,
            open_, ?_⟩
          · simpa [replay, taken] using first
          · rw [List.flatMap_cons, ← List.append_assoc]
            exact reached
          · intro earlier begins apart
            rcases List.prefix_cons_iff.mp begins with rfl | ⟨inner, rfl, begun⟩
            · exact here
            · rw [List.flatMap_cons, ← List.append_assoc]
              exact quiet inner begun fun same => apart (by rw [same])

theorem bind_follows {bound : Connected} {getter : Bool} (unframed : Unframed connection)
    (accepted : connection.bind getter minLen maxLen (some lener) = (0, bound)) :
    Follows minLen maxLen lener connection [] bound [] none := by
  obtain ⟨positive, tracks⟩ := bind_tracks unframed accepted
  have same : bound.handed = connection.handed ∧ bound.reported = connection.reported ∧
      bound.buf2 = [] ∧ bound.packetLen = 0 := by
    obtain ⟨emptied, reset⟩ := unframed
    unfold Connected.bind Connected.bindInner at accepted
    split at accepted
    · cases accepted
    · split at accepted
      · cases accepted
      · obtain ⟨-, rfl⟩ := Prod.mk.inj accepted
        exact ⟨rfl, rfl, emptied, reset⟩
  obtain ⟨handed, reported, emptied, reset⟩ := same
  exact {
    headerLen := tracks.headerLen
    size2 := tracks.size2
    installed := tracks.installed
    split := by simp [emptied]
    complete := by simp
    bounded := by simp
    ends := Or.inl (by simpa [emptied] using positive)
    measured := by simp [Measured, Connected.len2, emptied, reset, positive]
    handed := by simp [handed]
    reported := by simp [framingReports, reported] }

/-- Whatever the split of the peer's bytes into reads: up to the read with which the first fault
is found, or to the end if there is none, the packets handed to the sequencer are those of the
bounded reading of all the bytes, and its fault is what is reported. -/
theorem framing_reference (connection bound : Connected) (unframed : Unframed connection)
    (getter : Bool) (minLen maxLen : UInt64) (lener : LenGetter)
    (accepted : connection.bind getter minLen maxLen (some lener) = (0, bound))
    (reads : List Read) (last : Connected) (run : replay step bound reads = some last) :
    ∃ before after middle, reads = before ++ after ∧
      replay step bound before = some middle ∧ replay step middle after = some last ∧
      middle.handed = connection.handed ++
        (reference minLen maxLen lener (reads.flatMap Read.bytes)).1 ∧
      framingReports middle = framingReports connection ++
        ((reference minLen maxLen lener (reads.flatMap Read.bytes)).2.map reportOf).toList ∧
      ((reference minLen maxLen lener (reads.flatMap Read.bytes)).2 = none → after = []) ∧
      ∀ earlier, earlier <+: before → earlier ≠ before →
        (reference minLen maxLen lener (earlier.flatMap Read.bytes)).2 = none := by
  obtain ⟨positive, -⟩ := bind_tracks unframed accepted
  obtain ⟨before, after, middle, packets, fault, cut, first, second, follows, open_, quiet⟩ :=
    follows_run positive reads (bind_follows unframed accepted) run
  rw [List.nil_append] at follows
  have whole : reference minLen maxLen lener (reads.flatMap Read.bytes) = (packets, fault) := by
    rw [cut, List.flatMap_append]
    cases fault with
    | none =>
        rw [open_ rfl, List.flatMap_nil, List.append_nil]
        exact follows_reference positive follows
    | some fault => exact faulted_reference positive follows _
  refine ⟨before, after, middle, cut, first, second, ?_, ?_, ?_, fun earlier begins apart => ?_⟩
  · rw [whole]
    exact follows.handed
  · rw [whole]
    exact follows.reported
  · rw [whole]
    exact open_
  · simpa using quiet earlier begins apart

/-- Two packets in four reads, and a third one that is announced too long. The connection goes on
to fill it, behind the end of `buf2`. -/
def threeHeaders : List Read :=
  [.chunk [7], .chunk [3], .chunk [1], .chunk [7, 2], .chunk [8, 9], .chunk [0, 1, 2, 3, 4, 5, 6]]

theorem framing_reference_three :
    reference 2 4 lengthByte (threeHeaders.flatMap Read.bytes) =
        ([[7, 3, 1], [7, 2]], some .tooLong) ∧
      ∃ before after middle last, threeHeaders = before ++ after ∧
        replay step boundExample before = some middle ∧ replay step middle after = some last ∧
        middle.handed = [[7, 3, 1], [7, 2]] ∧ framingReports middle = [.packetLengthTooLong] := by
  have reached : (replay step boundExample threeHeaders).isSome := by decide
  have whole : reference 2 4 lengthByte (threeHeaders.flatMap Read.bytes) =
      ([[7, 3, 1], [7, 2]], some .tooLong) := by decide
  obtain ⟨before, after, middle, cut, first, second, handed, reported, -⟩ :=
    framing_reference {} boundExample unframed_new true 2 4 lengthByte (Prod.ext (by decide) rfl)
      threeHeaders _ (Option.some_get reached).symm
  rw [whole] at handed reported
  exact ⟨whole, before, after, middle, _, cut, first, second, handed, reported⟩

/-- The overlong packet is handed over in the end. -/
example : (replay step boundExample threeHeaders).map (fun last => last.handed) =
    some [[7, 3, 1], [7, 2], [8, 9, 0, 1, 2, 3, 4, 5, 6]] := by decide

end Cocoflow.ReferenceFraming
