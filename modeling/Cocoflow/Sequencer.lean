import Mathlib.Data.List.Basic
import Mathlib.Order.Defs.Unbundled
import Cocoflow.StableMultimap
import Cocoflow.TcpConnection

/-!
The sequencer that routes packets to receivers (include/cocoflow.h, `seqer_wrapper`), and
what the receiving callbacks of `udp` and `tcp::connected` share: a receiver with its buffer,
and the ways a packet can end. The getter of the application may leave `cur_seq` as it was,
so it is modelled with the old value as an argument.
-/

namespace Cocoflow.Sequencer

open StableMultimap TcpConnection

universe u v
variable {Seq : Type u} {β : Type v}

abbrev SeqGetter (Seq : Type u) := List Byte → Seq → Int × Seq

structure Seqer (Seq : Type u) (β : Type v) where
  mapping : List (Seq × β) := []
  curSeq : Seq

namespace Seqer

variable (less : Seq → Seq → Prop) [DecidableRel less]

def insert (seqer : Seqer Seq β) (seq : Seq) (obj : β) : Seqer Seq β :=
  { seqer with mapping := StableMultimap.insert less (seq, obj) seqer.mapping }

def erase (seqer : Seqer Seq β) (seq : Seq) : Seqer Seq β :=
  { seqer with mapping := eraseKey less seq seqer.mapping }

def unwrap (getter : SeqGetter Seq) (seqer : Seqer Seq β) (packet : List Byte) :
    Int × Option β × Seqer Seq β :=
  let got := getter packet seqer.curSeq
  let read : Seqer Seq β := { seqer with curSeq := got.2 }
  if 0 ≤ got.1 then
    match find? less got.2 seqer.mapping with
    | some entry =>
        (got.1, some entry.2, { read with mapping := eraseFirst less got.2 seqer.mapping })
    | none => (got.1, none, read)
  else (got.1, none, read)

def picked (getter : SeqGetter Seq) (seqer : Seqer Seq β) (packet : List Byte) :
    Option (Seq × β) :=
  if 0 ≤ (getter packet seqer.curSeq).1 then
    find? less (getter packet seqer.curSeq).2 seqer.mapping
  else none

variable {less} {getter : SeqGetter Seq} {seqer : Seqer Seq β} {packet : List Byte}

theorem picked_found {entry : Seq × β} (found : picked less getter seqer packet = some entry) :
    0 ≤ (getter packet seqer.curSeq).1 ∧
      find? less (getter packet seqer.curSeq).2 seqer.mapping = some entry := by
  unfold picked at found
  split at found
  · rename_i valid
    exact ⟨valid, found⟩
  · cases found

theorem unwrap_picked {entry : Seq × β} (found : picked less getter seqer packet = some entry) :
    unwrap less getter seqer packet =
      ((getter packet seqer.curSeq).1, some entry.2,
        { mapping := eraseFirst less (getter packet seqer.curSeq).2 seqer.mapping
          curSeq := (getter packet seqer.curSeq).2 }) := by
  obtain ⟨valid, first⟩ := picked_found found
  simp only [unwrap, if_pos valid, first]

theorem unwrap_unpicked (missed : picked less getter seqer packet = none) :
    unwrap less getter seqer packet =
      ((getter packet seqer.curSeq).1, none,
        { seqer with curSeq := (getter packet seqer.curSeq).2 }) := by
  unfold picked at missed
  split at missed
  · rename_i valid
    simp only [unwrap, if_pos valid, missed]
  · rename_i invalid
    simp only [unwrap, if_neg invalid]

end Seqer

/-- A suspended `recv` or `recv_by_seq`: whether `buf` is given, and `len`. -/
structure Receiver where
  id : Nat
  buf : Bool
  len : Nat
  deriving DecidableEq

/-- The value of `len` and the bytes in `buf` when a packet is copied out. -/
def Receiver.copyOut (receiver : Receiver) (packet : List Byte) : Nat × List Byte :=
  if receiver.buf then
    let len := if receiver.len > packet.length then packet.length else receiver.len
    (len, packet.take len)
  else (packet.length, [])

inductive Fate (Seq : Type u) (δ : Type v) where
  | bySeq (delivery : δ)
  | recv (delivery : δ)
  | unrecv (seq : Seq)
  | failed (ret : Int)

namespace Fate

def map {δ δ' : Type v} (f : δ → δ') : Fate Seq δ → Fate Seq δ'
  | .bySeq delivery => .bySeq (f delivery)
  | .recv delivery => .recv (f delivery)
  | .unrecv seq => .unrecv seq
  | .failed ret => .failed ret

def delivered {δ : Type v} : Fate Seq δ → Option δ
  | .bySeq delivery | .recv delivery => some delivery
  | _ => none

section Delivered

variable {δ : Type v}

@[simp] theorem delivered_bySeq (delivery : δ) :
    (bySeq delivery : Fate Seq δ).delivered = some delivery := rfl

@[simp] theorem delivered_recv (delivery : δ) :
    (recv delivery : Fate Seq δ).delivered = some delivery := rfl

@[simp] theorem delivered_unrecv (seq : Seq) : (unrecv seq : Fate Seq δ).delivered = none := rfl

@[simp] theorem delivered_failed (ret : Int) : (failed ret : Fate Seq δ).delivered = none := rfl

end Delivered

def isUnrecv {δ : Type v} : Fate Seq δ → Bool
  | .unrecv _ => true
  | _ => false

def isFailed {δ : Type v} : Fate Seq δ → Bool
  | .failed _ => true
  | _ => false

theorem length_eq {δ : Type v} (fates : List (Fate Seq δ)) :
    fates.length = (fates.filterMap delivered).length + fates.countP isUnrecv +
      fates.countP isFailed := by
  induction fates with
  | nil => rfl
  | cons fate rest ih =>
      cases fate <;>
        simp only [List.length_cons, List.filterMap_cons, List.countP_cons, delivered_bySeq,
          delivered_recv, delivered_unrecv, delivered_failed, isUnrecv, isFailed] <;>
        simp <;> omega

end Fate

end Cocoflow.Sequencer
