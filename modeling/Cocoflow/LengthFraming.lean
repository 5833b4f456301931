import Mathlib.Data.List.Basic

/-!
One-shot reading of a stream of packets that announce their own length. A packet starts
with a header of `least` symbols, and `size` computes the length of the whole packet from
its header. The reading cuts off packets as long as one is complete and announces at least
its header; what it leaves is the open end of the stream. The bounded reading also stops,
with a fault, at the first header that announces less than itself or more than `most`.
-/

namespace Cocoflow.LengthFraming

universe u
variable {α : Type u}

def cutFuel (least : Nat) (size : List α → Nat) : Nat → List α → List (List α) × List α
  | 0, stream => ([], stream)
  | fuel + 1, stream =>
      if stream.length < least ∨ size (stream.take least) < least ∨
          stream.length < size (stream.take least) then ([], stream)
      else
        let rest := cutFuel least size fuel (stream.drop (size (stream.take least)))
        (stream.take (size (stream.take least)) :: rest.1, rest.2)

/-- The complete packets of a stream and its open end. -/
def cut (least : Nat) (size : List α → Nat) (stream : List α) : List (List α) × List α :=
  cutFuel least size stream.length stream

def announced (least : Nat) (size : List α → Nat) (stream : List α) : List Nat :=
  let reading := cut least size stream
  reading.1.map List.length ++
    if reading.2.length < least then [] else [size (reading.2.take least)]

/-- How many symbols the header or the packet at the open end still lacks. -/
def missing (least : Nat) (size : List α → Nat) (stream : List α) : Nat :=
  let rest := (cut least size stream).2
  if rest.length < least then least - rest.length else size (rest.take least) - rest.length

def Complete (least : Nat) (size : List α → Nat) (packet : List α) : Prop :=
  least ≤ packet.length ∧ size (packet.take least) = packet.length

def Open (least : Nat) (size : List α → Nat) (rest : List α) : Prop :=
  rest.length < least ∨ size (rest.take least) < least ∨ rest.length < size (rest.take least)

variable {least : Nat} {size : List α → Nat}

theorem cutFuel_open (fuel : Nat) {rest : List α} (opened : Open least size rest) :
    cutFuel least size fuel rest = ([], rest) := by
  cases fuel with
  | zero => rfl
  | succ fuel => exact if_pos opened

theorem cutFuel_complete (fuel : Nat) {packet : List α} (complete : Complete least size packet)
    (rest : List α) :
    cutFuel least size (fuel + 1) (packet ++ rest) =
      (packet :: (cutFuel least size fuel rest).1, (cutFuel least size fuel rest).2) := by
  obtain ⟨long, exact⟩ := complete
  have header : (packet ++ rest).take least = packet.take least :=
    List.take_append_of_le_length long
  have closed : ¬((packet ++ rest).length < least ∨ packet.length < least ∨
      (packet ++ rest).length < packet.length) := by
    rw [List.length_append]
    omega
  simp only [cutFuel, header, exact, if_neg closed, List.take_left, List.drop_left]

theorem packets_length_le (positive : 0 < least) {packets : List (List α)}
    (complete : ∀ packet ∈ packets, Complete least size packet) :
    packets.length ≤ packets.flatten.length := by
  induction packets with
  | nil => simp
  | cons packet more ih =>
      have head := (complete packet (by simp)).1
      have tail := ih fun other member => complete other (by simp [member])
      simp only [List.length_cons, List.flatten_cons, List.length_append]
      omega

/-- The reading is determined: packets that are complete, followed by an open end, are what
is cut. -/
theorem cut_framed (positive : 0 < least) {packets : List (List α)} {rest : List α}
    (complete : ∀ packet ∈ packets, Complete least size packet)
    (opened : Open least size rest) :
    cut least size (packets.flatten ++ rest) = (packets, rest) := by
  have enough : packets.length ≤ (packets.flatten ++ rest).length := by
    have nonempty := packets_length_le positive complete
    rw [List.length_append]
    omega
  unfold cut
  generalize (packets.flatten ++ rest).length = fuel at enough
  induction packets generalizing fuel with
  | nil => simpa using cutFuel_open fuel opened
  | cons packet more ih =>
      cases fuel with
      | zero => simp at enough
      | succ fuel =>
          have tail := ih (fun other member => complete other (by simp [member])) fuel
            (by simpa using enough)
          rw [List.flatten_cons, List.append_assoc,
            cutFuel_complete fuel (complete packet (by simp)), tail]

inductive Fault where
  | tooShort | tooLong
  deriving DecidableEq

def framesFuel (least most : Nat) (size : List α → Nat) :
    Nat → List α → List (List α) × Option Fault
  | 0, _ => ([], none)
  | fuel + 1, stream =>
      if stream.length < least then ([], none)
      else if size (stream.take least) < least then ([], some .tooShort)
      else if most < size (stream.take least) then ([], some .tooLong)
      else if stream.length < size (stream.take least) then ([], none)
      else
        let rest := framesFuel least most size fuel (stream.drop (size (stream.take least)))
        (stream.take (size (stream.take least)) :: rest.1, rest.2)

/-- The packets of a stream up to the first fault, and that fault. -/
def frames (least most : Nat) (size : List α → Nat) (stream : List α) :
    List (List α) × Option Fault :=
  framesFuel least most size (stream.length + 1) stream

/-- How the bounded reading ends at the open end of a stream. -/
def Ends (least most : Nat) (size : List α → Nat) (rest : List α) : Option Fault → Prop
  | none => rest.length < least ∨ least ≤ size (rest.take least) ∧
      size (rest.take least) ≤ most ∧ rest.length < size (rest.take least)
  | some .tooShort => least ≤ rest.length ∧ size (rest.take least) < least
  | some .tooLong => least ≤ rest.length ∧ least ≤ size (rest.take least) ∧
      most < size (rest.take least)

variable {most : Nat}

theorem ends_append {rest : List α} {fault : Fault} (more : List α)
    (ends : Ends least most size rest (some fault)) :
    Ends least most size (rest ++ more) (some fault) := by
  have header (long : least ≤ rest.length) :
      least ≤ (rest ++ more).length ∧ (rest ++ more).take least = rest.take least := by
    refine ⟨?_, List.take_append_of_le_length long⟩
    rw [List.length_append]
    omega
  cases fault with
  | tooShort =>
      obtain ⟨longer, same⟩ := header ends.1
      refine ⟨longer, ?_⟩
      rw [same]
      exact ends.2
  | tooLong =>
      obtain ⟨longer, same⟩ := header ends.1
      refine ⟨longer, ?_⟩
      rw [same]
      exact ends.2

theorem framesFuel_ends (fuel : Nat) {rest : List α} {fault : Option Fault}
    (ends : Ends least most size rest fault) :
    framesFuel least most size (fuel + 1) rest = ([], fault) := by
  unfold framesFuel
  cases fault with
  | none =>
      rcases ends with short | ⟨long, bounded, unfinished⟩
      · rw [if_pos short]
      · by_cases short : rest.length < least
        · rw [if_pos short]
        · rw [if_neg short, if_neg (by omega), if_neg (by omega), if_pos unfinished]
  | some fault =>
      cases fault with
      | tooShort =>
          obtain ⟨header, less⟩ := ends
          rw [if_neg (by omega), if_pos less]
      | tooLong =>
          obtain ⟨header, long, more⟩ := ends
          rw [if_neg (by omega), if_neg (by omega), if_pos more]

theorem framesFuel_complete (fuel : Nat) {packet : List α}
    (complete : Complete least size packet) (bounded : packet.length ≤ most) (rest : List α) :
    framesFuel least most size (fuel + 1) (packet ++ rest) =
      (packet :: (framesFuel least most size fuel rest).1,
        (framesFuel least most size fuel rest).2) := by
  obtain ⟨long, exact⟩ := complete
  have header : (packet ++ rest).take least = packet.take least :=
    List.take_append_of_le_length long
  have enough : packet.length ≤ (packet ++ rest).length := by simp
  rw [framesFuel, header, exact, if_neg (by omega), if_neg (by omega), if_neg (by omega),
    if_neg (by omega)]
  simp only [List.take_left, List.drop_left]

theorem frames_framed (positive : 0 < least) {packets : List (List α)} {rest : List α}
    {fault : Option Fault} (complete : ∀ packet ∈ packets, Complete least size packet)
    (bounded : ∀ packet ∈ packets, packet.length ≤ most)
    (ends : Ends least most size rest fault) :
    frames least most size (packets.flatten ++ rest) = (packets, fault) := by
  have enough : packets.length ≤ (packets.flatten ++ rest).length := by
    have count := packets_length_le positive complete
    rw [List.length_append]
    omega
  unfold frames
  generalize (packets.flatten ++ rest).length = fuel at enough
  induction packets generalizing fuel with
  | nil => simpa using framesFuel_ends fuel ends
  | cons packet more ih =>
      cases fuel with
      | zero => simp at enough
      | succ fuel =>
          have tail := ih (fun other member => complete other (by simp [member]))
            (fun other member => bounded other (by simp [member])) fuel (by simpa using enough)
          rw [List.flatten_cons, List.append_assoc,
            framesFuel_complete _ (complete packet (by simp)) (bounded packet (by simp)), tail]

theorem framesFuel_prefix (stream more : List α) (fuel extra : Nat) :
    (framesFuel least most size fuel stream).1 <+:
      (framesFuel least most size (fuel + extra) (stream ++ more)).1 := by
  induction fuel generalizing stream with
  | zero => exact List.nil_prefix
  | succ fuel ih =>
      rw [Nat.add_right_comm, framesFuel, framesFuel]
      by_cases short : stream.length < least
      · rw [if_pos short]
        exact List.nil_prefix
      · have long : least ≤ stream.length := Nat.le_of_not_lt short
        have further : ¬(stream ++ more).length < least := by
          rw [List.length_append]
          omega
        rw [if_neg short, if_neg further, List.take_append_of_le_length long]
        split
        · exact List.nil_prefix
        · split
          · exact List.nil_prefix
          · by_cases unfinished : stream.length < size (stream.take least)
            · rw [if_pos unfinished]
              exact List.nil_prefix
            · have whole : size (stream.take least) ≤ stream.length :=
                Nat.le_of_not_lt unfinished
              have beyond : ¬(stream ++ more).length < size (stream.take least) := by
                rw [List.length_append]
                omega
              rw [if_neg unfinished, if_neg beyond, List.take_append_of_le_length whole,
                List.drop_append_of_le_length whole]
              exact (List.prefix_cons_inj _).mpr (ih _)

theorem frames_prefix (stream more : List α) :
    (frames least most size stream).1 <+: (frames least most size (stream ++ more)).1 := by
  unfold frames
  rw [List.length_append, Nat.add_right_comm]
  exact framesFuel_prefix stream more _ _

end Cocoflow.LengthFraming
