import Mathlib.Data.List.Basic
import Mathlib.Data.List.Nodup
import Mathlib.Order.Defs.Unbundled
import Cocoflow.LabelledRuns
import Cocoflow.StableMultimap
import Cocoflow.LengthFraming
import Cocoflow.TcpConnection
import Cocoflow.PacketFraming
import Cocoflow.TcpBinding

/-!
A read or framing error on a `tcp::connected` (src/tcp.cc): the callback sets `broken`, and
`break_all_recv` with `seqer_wrapper::drop_all` resumes every suspended receiver. Each of its
three loops saves an iterator to the next element, erases the current one and gives control to
the task; what that task does then is a list of labels, up to `back`. It may cancel other
receivers of the connection, bind it or destroy it; a new receive on a broken connection fails
its `CHECK`.

An iterator is the element that it denotes, or `none` for the end. A loop that goes on with an
iterator whose element is gone, or with `drop_all` on a null `seqer`, is `undefined`.
-/

namespace Cocoflow.TcpBreaking

open LabelledRuns StableMultimap LengthFraming TcpConnection PacketFraming

universe u

/-- Where the callback stands while a resumed task runs, and how it ends. -/
inductive Place where
  | current
  | queue0 (it : Option Nat)
  | queue1 (it : Option Nat)
  | bySeq (it : Option Nat)
  | returned
  | undefined
  deriving DecidableEq

/-- A connection in an error callback. `waiting` holds the suspended `recv_by_seq` tasks with
their keys, `resumed` the receivers that were given a code. -/
structure Breaking (Seq : Type u) where
  framing : PacketFraming.Connected
  recvQueue0 : List Nat := []
  recvQueue1 : List Nat := []
  mapping : List (Seq × Nat) := []
  waiting : List (Seq × Nat) := []
  err : Report := .failure
  place : Place := .current
  alive : Bool := true
  resumed : List (Nat × Report) := []
  cancelled : List Nat := []

def after (id : Nat) (ids : List Nat) : Option Nat :=
  (ids.dropWhile fun other => other ≠ id).tail.head?

namespace Breaking

variable {Seq : Type u}

def resume (breaking : Breaking Seq) (id : Nat) (place : Place) : Breaking Seq :=
  { breaking with resumed := breaking.resumed ++ [(id, breaking.err)], place := place }

/-- The loop of `seqer_wrapper::drop_all`, from its condition to the next resumption. -/
def dropAll (breaking : Breaking Seq) : Option Nat → Breaking Seq
  | none => { breaking with place := .returned }
  | some id =>
      if id ∈ breaking.mapping.map Prod.snd then
        { breaking with
          mapping := breaking.mapping.filter fun entry => entry.2 ≠ id
          waiting := breaking.waiting.filter fun entry => entry.2 ≠ id }.resume id
            (.bySeq (after id (breaking.mapping.map Prod.snd)))
      else { breaking with place := .undefined }

def breakBySeq (breaking : Breaking Seq) : Breaking Seq :=
  if breaking.framing.seqer then breaking.dropAll (breaking.mapping.map Prod.snd).head?
  else { breaking with place := .undefined }

def breakQueue1 (breaking : Breaking Seq) : Option Nat → Breaking Seq
  | none => breaking.breakBySeq
  | some id =>
      if id ∈ breaking.recvQueue1 then
        { breaking with recvQueue1 := breaking.recvQueue1.filter fun other => other ≠ id }.resume id
          (.queue1 (after id breaking.recvQueue1))
      else { breaking with place := .undefined }

def breakQueue0 (breaking : Breaking Seq) : Option Nat → Breaking Seq
  | none => breaking.breakQueue1 breaking.recvQueue1.head?
  | some id =>
      if id ∈ breaking.recvQueue0 then
        { breaking with recvQueue0 := breaking.recvQueue0.filter fun other => other ≠ id }.resume id
          (.queue0 (after id breaking.recvQueue0))
      else { breaking with place := .undefined }

def breakAllRecv (breaking : Breaking Seq) : Breaking Seq :=
  breaking.breakQueue0 breaking.recvQueue0.head?

/-- The resumed task gives control back; a callback whose object is gone returns. -/
def back (breaking : Breaking Seq) : Option (Breaking Seq) :=
  let gone := { breaking with place := .returned }
  match breaking.place with
  | .current => some (if breaking.alive then breaking.breakAllRecv else gone)
  | .queue0 it => some (if breaking.alive then breaking.breakQueue0 it else gone)
  | .queue1 it => some (if breaking.alive then breaking.breakQueue1 it else gone)
  | .bySeq it => some (if breaking.alive then breaking.dropAll it else gone)
  | .returned | .undefined => none

/-- A task runs on the broken connection. -/
def Running (breaking : Breaking Seq) : Prop :=
  breaking.alive = true ∧ breaking.place ≠ .returned ∧ breaking.place ≠ .undefined

instance (breaking : Breaking Seq) : Decidable breaking.Running :=
  inferInstanceAs (Decidable (_ ∧ _ ∧ _))

/-- `recv::cancel`; behind the last plain request the object is ready again. -/
def recvCancel (breaking : Breaking Seq) (id : Nat) : Option (Breaking Seq) :=
  if breaking.Running ∧ id ∈ breaking.recvQueue0 then
    let left := breaking.recvQueue0.filter fun other => other ≠ id
    some { breaking with
      recvQueue0 := left
      cancelled := breaking.cancelled ++ [id]
      framing :=
        if breaking.framing.receiving = .recv ∧ left = [] then
          { breaking.framing with receiving := .ready }
        else breaking.framing }
  else none

/-- `recv_till::cancel`, as far as the queue is concerned. -/
def recvTillCancel (breaking : Breaking Seq) (id : Nat) : Option (Breaking Seq) :=
  if breaking.Running ∧ id ∈ breaking.recvQueue1 then
    some { breaking with
      recvQueue1 := breaking.recvQueue1.filter fun other => other ≠ id
      cancelled := breaking.cancelled ++ [id] }
  else none

/-- `recv_by_seq::cancel`: `seqer_wrapper::erase` takes out all entries under the key. -/
def recvBySeqCancel (less : Seq → Seq → Prop) [DecidableRel less] (breaking : Breaking Seq)
    (id : Nat) : Option (Breaking Seq) :=
  match breaking.waiting.find? fun entry => entry.2 = id with
  | some entry =>
      if breaking.Running then
        some { breaking with
          mapping := eraseKey less entry.1 breaking.mapping
          waiting := breaking.waiting.filter fun other => other.2 ≠ id
          cancelled := breaking.cancelled ++ [id] }
      else none
  | none => none

end Breaking

inductive Label where
  | cancelRecv (id : Nat)
  | cancelTill (id : Nat)
  | cancelBySeq (id : Nat)
  | bind (getter : Bool) (minLen maxLen : UInt64) (lener : Option LenGetter)
  | destroy
  | back

def step {Seq : Type u} (less : Seq → Seq → Prop) [DecidableRel less] (breaking : Breaking Seq) :
    Label → Option (Breaking Seq)
  | .cancelRecv id => breaking.recvCancel id
  | .cancelTill id => breaking.recvTillCancel id
  | .cancelBySeq id => breaking.recvBySeqCancel less id
  | .bind getter minLen maxLen lener =>
      if breaking.Running then
        some { breaking with framing := (breaking.framing.bind getter minLen maxLen lener).2 }
      else none
  | .destroy => if breaking.Running then some { breaking with alive := false } else none
  | .back => breaking.back

section Callbacks

variable (Seq : Type u) (framing : PacketFraming.Connected)

/-- `nread < 0` in `tcp_recv_cb0` and `tcp_recv_cb1`, up to the resumption of the request that
was being read. The object has no sequencer. -/
def failedRead (current : Nat) (recvQueue0 recvQueue1 : List Nat) : Breaking Seq where
  framing := { framing with broken := true }
  recvQueue0 := recvQueue0
  recvQueue1 := recvQueue1
  resumed := [(current, .failure)]

def tcpRecvCb0Failed (curAlloc0 : Nat) (recvQueue0 : List Nat) : Breaking Seq :=
  failedRead Seq framing curAlloc0 recvQueue0 []

def tcpRecvCb1Failed (curAlloc1 : Nat) (recvQueue1 : List Nat) : Breaking Seq :=
  failedRead Seq framing curAlloc1 [] recvQueue1

variable {Seq}

end Callbacks

section Tracking

variable {Seq : Type u}

/-- The receivers that wait, in the order in which the loops come to them. -/
def remaining (breaking : Breaking Seq) : List Nat :=
  breaking.recvQueue0 ++ (breaking.recvQueue1 ++ breaking.mapping.map Prod.snd)

/-- The saved iterator denotes an element that is still in the container, or its end. -/
def SavedValid (breaking : Breaking Seq) : Prop :=
  match breaking.place with
  | .queue0 (some id) => id ∈ breaking.recvQueue0
  | .queue1 (some id) => id ∈ breaking.recvQueue1
  | .bySeq (some id) => id ∈ breaking.mapping.map Prod.snd
  | .undefined => False
  | _ => True

/-- A label does not take the element that the saved iterator denotes out of its container, nor
the registration of another task along with one that is cancelled. -/
def Spares (less : Seq → Seq → Prop) (breaking : Breaking Seq) : Label → Prop
  | .cancelRecv id => breaking.place ≠ .queue0 (some id)
  | .cancelTill id => breaking.place ≠ .queue1 (some id)
  | .cancelBySeq id =>
      breaking.place ≠ .bySeq (some id) ∧ ∀ entry ∈ breaking.waiting, entry.2 = id →
        ∀ other ∈ breaking.mapping, Equivalent less entry.1 other.1 → other.2 = id
  | _ => True

instance (less : Seq → Seq → Prop) [DecidableRel less] (breaking : Breaking Seq) :
    (label : Label) → Decidable (Spares less breaking label)
  | .cancelRecv _ | .cancelTill _ => inferInstanceAs (Decidable (_ ≠ _))
  | .cancelBySeq _ => inferInstanceAs (Decidable (_ ∧ _))
  | .bind .. | .destroy | .back => isTrue trivial

/-- The loops erase what they visit, so an iterator that is still good is the beginning. -/
def AtBegin (breaking : Breaking Seq) : Prop :=
  match breaking.place with
  | .current => True
  | .queue0 it => it = breaking.recvQueue0.head?
  | .queue1 it => breaking.recvQueue0 = [] ∧ it = breaking.recvQueue1.head?
  | .bySeq it =>
      breaking.framing.seqer = true ∧ breaking.recvQueue0 = [] ∧ breaking.recvQueue1 = [] ∧
        it = (breaking.mapping.map Prod.snd).head?
  | .returned =>
      breaking.alive = true → breaking.framing.seqer = true ∧ remaining breaking = []
  | .undefined => False

/-- What the receivers are owed: those that were not cancelled are resumed in order, with one
code. -/
structure Served (pending : List Nat) (err : Report) (breaking : Breaking Seq) : Prop where
  order : breaking.resumed.map Prod.fst ++ remaining breaking =
    pending.filter fun id => id ∉ breaking.cancelled
  code : breaking.err = err
  codes : ∀ entry ∈ breaking.resumed, entry.2 = err
  own : breaking.waiting = breaking.mapping

variable {pending : List Nat} {err : Report} {breaking next : Breaking Seq}

theorem served_nodup (distinct : pending.Nodup) (served : Served pending err breaking) :
    (breaking.resumed.map Prod.fst ++ remaining breaking).Nodup := by
  rw [served.order]
  exact distinct.filter _

section Queues

variable {id : Nat} {ids rest : List Nat}

theorem after_head : after id (id :: rest) = rest.head? := by
  simp [after]

theorem filter_head (distinct : (id :: rest).Nodup) :
    (id :: rest).filter (fun other => other ≠ id) = rest := by
  rw [List.nodup_cons] at distinct
  rw [List.filter_cons_of_neg (by simp), List.filter_eq_self]
  intro other member
  simpa using fun (same : other = id) => distinct.1 (same ▸ member)

theorem filter_absent (absent : id ∉ ids) : ids.filter (fun other => other ≠ id) = ids := by
  rw [List.filter_eq_self]
  intro other member
  simpa using fun (same : other = id) => absent (same ▸ member)

theorem head_kept (other : ids.head? ≠ some id) :
    (ids.filter fun other => other ≠ id).head? = ids.head? := by
  cases ids with
  | nil => rfl
  | cons head rest =>
      have apart : head ≠ id := by simpa using other
      rw [List.filter_cons_of_pos (by simpa using apart)]
      rfl

end Queues

/-- A sequencer that is installed stays, and every `bind` with a getter installs one. -/
theorem bind_seqer (framing : PacketFraming.Connected) (getter : Bool) (minLen maxLen : UInt64)
    (lener : Option LenGetter) :
    (framing.bind getter minLen maxLen lener).2.seqer = (framing.seqer || getter) := by
  rcases TcpBinding.bind_cases framing getter minLen maxLen lener with
    ⟨early, same⟩ | ⟨asked, -, -, same⟩ | ⟨asked, -, -, -, bound⟩
  · rw [same]
    rcases early with none_ | bound
    · rw [none_, Bool.or_false]
    · rw [bound, Bool.true_or]
  · rw [same, asked, Bool.or_true]
  · rw [bound, asked, Bool.or_true]

section Back

def Onward (breaking : Breaking Seq) : Prop :=
  AtBegin breaking ∨ breaking.place = .undefined ∧ breaking.framing.seqer = false

theorem codes_append (served : Served pending err breaking) (id : Nat) :
    ∀ entry ∈ breaking.resumed ++ [(id, breaking.err)], entry.2 = err := by
  intro entry member
  rcases List.mem_append.mp member with earlier | last
  · exact served.codes entry earlier
  · rw [List.mem_singleton.mp last]
    exact served.code

theorem dropAll_served (distinct : pending.Nodup) (served : Served pending err breaking)
    (bound : breaking.framing.seqer = true) (empty0 : breaking.recvQueue0 = []) (empty1 : breaking.recvQueue1 = []) :
    Served pending err (breaking.dropAll (breaking.mapping.map Prod.snd).head?) ∧
      AtBegin (breaking.dropAll (breaking.mapping.map Prod.snd).head?) := by
  have fresh := served_nodup distinct served
  have order := served.order
  simp only [remaining, empty0, empty1, List.nil_append] at fresh order
  cases mapping : breaking.mapping with
  | nil =>
      refine ⟨⟨?_, served.code, served.codes, served.own⟩, fun _ => ?_⟩
      · exact served.order
      · exact ⟨bound, by simp [Breaking.dropAll, remaining, empty0, empty1, mapping]⟩
  | cons entry rest =>
      have waiting := served.own
      rw [mapping] at fresh order waiting
      rw [List.map_cons] at fresh order
      have alone := (List.nodup_append.mp fresh).2.1
      have left : (entry :: rest).filter (fun other => other.2 ≠ entry.2) = rest := by
        rw [List.filter_cons_of_neg (by simp), List.filter_eq_self]
        intro other member
        simpa using fun (same : other.2 = entry.2) =>
          (List.nodup_cons.mp alone).1 (same ▸ List.mem_map_of_mem member)
      have made : breaking.dropAll ((entry :: rest).map Prod.snd).head? =
          { breaking with mapping := rest, waiting := rest }.resume entry.2
            (.bySeq (rest.map Prod.snd).head?) := by
        simp only [Breaking.dropAll, List.map_cons, List.head?_cons, mapping, waiting, left,
          after_head, List.mem_cons, true_or, if_true]
      rw [made]
      refine ⟨⟨?_, served.code, codes_append served entry.2, rfl⟩, bound, empty0, empty1, rfl⟩
      simp only [Breaking.resume, remaining, empty0, empty1, List.nil_append, List.map_append,
        List.map_cons, List.map_nil, List.append_assoc, List.cons_append]
      exact order

theorem breakBySeq_served (distinct : pending.Nodup) (served : Served pending err breaking)
    (empty0 : breaking.recvQueue0 = []) (empty1 : breaking.recvQueue1 = []) :
    Served pending err breaking.breakBySeq ∧ Onward breaking.breakBySeq := by
  unfold Breaking.breakBySeq
  split
  · rename_i bound
    obtain ⟨kept, place⟩ := dropAll_served distinct served bound empty0 empty1
    exact ⟨kept, Or.inl place⟩
  · rename_i absent
    exact ⟨⟨served.order, served.code, served.codes, served.own⟩,
      Or.inr ⟨rfl, by simpa using absent⟩⟩

theorem breakQueue1_served (distinct : pending.Nodup) (served : Served pending err breaking)
    (empty0 : breaking.recvQueue0 = []) :
    Served pending err (breaking.breakQueue1 breaking.recvQueue1.head?) ∧
      Onward (breaking.breakQueue1 breaking.recvQueue1.head?) := by
  cases queue : breaking.recvQueue1 with
  | nil => exact breakBySeq_served distinct served empty0 queue
  | cons id rest =>
      have fresh := served_nodup distinct served
      have order := served.order
      simp only [remaining, empty0, queue, List.nil_append] at fresh order
      have alone := (List.nodup_append.mp (List.nodup_append.mp fresh).2.1).1
      have made : breaking.breakQueue1 (id :: rest).head? =
          { breaking with recvQueue1 := rest }.resume id (.queue1 rest.head?) := by
        simp only [Breaking.breakQueue1, List.head?_cons, queue, filter_head alone, after_head,
          List.mem_cons, true_or, if_true]
      rw [made]
      refine ⟨⟨?_, served.code, codes_append served id, served.own⟩, Or.inl ⟨empty0, rfl⟩⟩
      simp only [Breaking.resume, remaining, empty0, List.nil_append, List.map_append,
        List.map_cons, List.map_nil, List.append_assoc, List.cons_append]
      exact order

theorem breakQueue0_served (distinct : pending.Nodup) (served : Served pending err breaking) :
    Served pending err breaking.breakAllRecv ∧ Onward breaking.breakAllRecv := by
  unfold Breaking.breakAllRecv
  cases queue : breaking.recvQueue0 with
  | nil => exact breakQueue1_served distinct served queue
  | cons id rest =>
      have fresh := served_nodup distinct served
      have order := served.order
      simp only [remaining, queue] at fresh order
      have alone := (List.nodup_append.mp (List.nodup_append.mp fresh).2.1).1
      have made : breaking.breakQueue0 (id :: rest).head? =
          { breaking with recvQueue0 := rest }.resume id (.queue0 rest.head?) := by
        simp only [Breaking.breakQueue0, List.head?_cons, queue, filter_head alone, after_head,
          List.mem_cons, true_or, if_true]
      rw [made]
      refine ⟨⟨?_, served.code, codes_append served id, served.own⟩, Or.inl rfl⟩
      simp only [Breaking.resume, remaining, List.map_append, List.map_cons, List.map_nil,
        List.append_assoc, List.cons_append, List.nil_append]
      exact order

theorem back_cases (taken : breaking.back = some next) :
    (breaking.alive = false ∧ next = { breaking with place := .returned }) ∨
      (breaking.alive = true ∧
        ((breaking.place = .current ∧ next = breaking.breakAllRecv) ∨
          (∃ it, breaking.place = .queue0 it ∧ next = breaking.breakQueue0 it) ∨
          (∃ it, breaking.place = .queue1 it ∧ next = breaking.breakQueue1 it) ∨
          ∃ it, breaking.place = .bySeq it ∧ next = breaking.dropAll it)) := by
  unfold Breaking.back at taken
  cases here : breaking.place <;> cases living : breaking.alive <;>
    simp only [here, living, if_true, if_false, Bool.false_eq_true, Option.some.injEq,
      reduceCtorEq] at taken
  all_goals simp [taken]

theorem back_served (distinct : pending.Nodup) (served : Served pending err breaking)
    (place : AtBegin breaking) (taken : breaking.back = some next) :
    Served pending err next ∧ Onward next := by
  unfold AtBegin at place
  rcases back_cases taken with ⟨dead, rfl⟩ |
    ⟨-, ⟨-, rfl⟩ | ⟨it, here, rfl⟩ | ⟨it, here, rfl⟩ | ⟨it, here, rfl⟩⟩
  · refine ⟨⟨served.order, served.code, served.codes, served.own⟩, Or.inl ?_⟩
    intro living
    exact absurd (dead.symm.trans living) Bool.false_ne_true
  · exact breakQueue0_served distinct served
  · rw [here] at place
    rw [place]
    exact breakQueue0_served distinct served
  · rw [here] at place
    rw [place.2]
    exact breakQueue1_served distinct served place.1
  · rw [here] at place
    rw [place.2.2.2]
    obtain ⟨kept, begin_⟩ := dropAll_served distinct served place.1 place.2.1 place.2.2.1
    exact ⟨kept, Or.inl begin_⟩

end Back

section Cancelling

theorem order_cancelled (distinct : pending.Nodup) (served : Served pending err breaking) {id : Nat}
    (waits : id ∈ remaining breaking) :
    breaking.resumed.map Prod.fst ++ (remaining breaking).filter (fun other => other ≠ id) =
      pending.filter fun other => other ∉ breaking.cancelled ++ [id] := by
  have fresh := served_nodup distinct served
  have apart : id ∉ breaking.resumed.map Prod.fst := fun early =>
    (List.nodup_append.mp fresh).2.2 id early id waits rfl
  have two : pending.filter (fun other => other ∉ breaking.cancelled ++ [id]) =
      (pending.filter fun other => other ∉ breaking.cancelled).filter fun other => other ≠ id := by
    rw [List.filter_filter]
    apply List.filter_congr
    intro other _
    simp [Bool.and_comm]
  rw [two, ← served.order, List.filter_append, filter_absent apart]

theorem recvCancel_served (distinct : pending.Nodup) (served : Served pending err breaking)
    (place : AtBegin breaking) {id : Nat} (spared : breaking.place ≠ .queue0 (some id))
    (taken : breaking.recvCancel id = some next) : Served pending err next ∧ AtBegin next := by
  unfold Breaking.recvCancel at taken
  split at taken
  · rename_i waits
    cases taken
    have member : id ∈ remaining breaking := List.mem_append_left _ waits.2
    have order := order_cancelled distinct served member
    have fresh := (List.nodup_append.mp (served_nodup distinct served)).2.1
    have apart : id ∉ breaking.recvQueue1 ++ breaking.mapping.map Prod.snd := fun behind =>
      (List.nodup_append.mp fresh).2.2 id waits.2 id behind rfl
    constructor
    · refine ⟨?_, served.code, served.codes, served.own⟩
      rw [remaining, List.filter_append, filter_absent apart] at order
      exact order
    · have filled : breaking.recvQueue0 ≠ [] := List.ne_nil_of_mem waits.2
      unfold AtBegin at place ⊢
      cases here : breaking.place with
      | queue0 it =>
          rw [here] at place spared
          have other : breaking.recvQueue0.head? ≠ some id := by
            rw [← place]
            exact fun same => spared (by rw [same])
          exact place.trans (head_kept other).symm
      | queue1 it =>
          rw [here] at place
          exact absurd place.1 filled
      | bySeq it =>
          rw [here] at place
          exact absurd place.2.1 filled
      | current => trivial
      | returned => exact absurd here waits.1.2.1
      | undefined => exact absurd here waits.1.2.2
  · cases taken

theorem recvTillCancel_served (distinct : pending.Nodup) (served : Served pending err breaking)
    (place : AtBegin breaking) {id : Nat} (spared : breaking.place ≠ .queue1 (some id))
    (taken : breaking.recvTillCancel id = some next) :
    Served pending err next ∧ AtBegin next := by
  unfold Breaking.recvTillCancel at taken
  split at taken
  · rename_i waits
    cases taken
    have member : id ∈ remaining breaking :=
      List.mem_append_right _ (List.mem_append_left _ waits.2)
    have order := order_cancelled distinct served member
    have fresh := (List.nodup_append.mp (served_nodup distinct served)).2.1
    have front : id ∉ breaking.recvQueue0 := fun early =>
      (List.nodup_append.mp fresh).2.2 id early id (List.mem_append_left _ waits.2) rfl
    have apart : id ∉ breaking.mapping.map Prod.snd := fun behind =>
      (List.nodup_append.mp (List.nodup_append.mp fresh).2.1).2.2 id waits.2 id behind rfl
    constructor
    · refine ⟨?_, served.code, served.codes, served.own⟩
      rw [remaining, List.filter_append, List.filter_append, filter_absent front,
        filter_absent apart] at order
      exact order
    · have filled : breaking.recvQueue1 ≠ [] := List.ne_nil_of_mem waits.2
      unfold AtBegin at place ⊢
      cases here : breaking.place with
      | queue0 it =>
          rw [here] at place
          exact place
      | queue1 it =>
          rw [here] at place spared
          have other : breaking.recvQueue1.head? ≠ some id := by
            rw [← place.2]
            exact fun same => spared (by rw [same])
          exact ⟨place.1, place.2.trans (head_kept other).symm⟩
      | bySeq it =>
          rw [here] at place
          exact absurd place.2.2.1 filled
      | current => trivial
      | returned => exact absurd here waits.1.2.1
      | undefined => exact absurd here waits.1.2.2
  · cases taken

theorem recvBySeqCancel_served {less : Seq → Seq → Prop} [DecidableRel less]
    [IsStrictWeakOrder Seq less] (distinct : pending.Nodup) (served : Served pending err breaking)
    (place : AtBegin breaking) {id : Nat} (spared : Spares less breaking (.cancelBySeq id))
    (taken : breaking.recvBySeqCancel less id = some next) :
    Served pending err next ∧ AtBegin next := by
  unfold Breaking.recvBySeqCancel at taken
  split at taken
  · rename_i entry found
    split at taken
    · rename_i runs
      cases taken
      have same : entry.2 = id := by simpa using List.find?_some found
      have waits := List.mem_of_find?_eq_some found
      have registered := waits
      rw [served.own] at registered
      have fresh := (List.nodup_append.mp (served_nodup distinct served)).2.1
      have ids := (List.nodup_append.mp (List.nodup_append.mp fresh).2.1).2.1
      have task : id ∈ breaking.mapping.map Prod.snd := same ▸ List.mem_map_of_mem registered
      -- under distinct keys the erased entries are those of this task
      have left : eraseKey less entry.1 breaking.mapping =
          breaking.mapping.filter fun other => other.2 ≠ entry.2 := by
        rw [eraseKey_alone (fun task => task)]
        · intro other member equal
          rw [same]
          exact spared.2 entry waits same other member equal
        · intro other member equal
          exact List.inj_on_of_nodup_map ids member registered equal
      rw [same] at left
      have names : (breaking.mapping.filter fun other => other.2 ≠ id).map Prod.snd =
          (breaking.mapping.map Prod.snd).filter fun other => other ≠ id := by
        rw [List.filter_map]
        rfl
      have member : id ∈ remaining breaking :=
        List.mem_append_right _ (List.mem_append_right _ task)
      have order := order_cancelled distinct served member
      have front : id ∉ breaking.recvQueue0 := fun early =>
        (List.nodup_append.mp fresh).2.2 id early id (List.mem_append_right _ task) rfl
      have middle : id ∉ breaking.recvQueue1 := fun early =>
        (List.nodup_append.mp (List.nodup_append.mp fresh).2.1).2.2 id early id task rfl
      constructor
      · refine ⟨?_, served.code, served.codes, ?_⟩
        · rw [remaining, List.filter_append, List.filter_append, filter_absent front,
            filter_absent middle] at order
          simp only [remaining, left, names]
          exact order
        · rw [left, served.own]
      · have filled : breaking.mapping ≠ [] := List.ne_nil_of_mem registered
        unfold AtBegin at place ⊢
        cases here : breaking.place with
        | queue0 it =>
            rw [here] at place
            exact place
        | queue1 it =>
            rw [here] at place
            exact place
        | bySeq it =>
            rw [here] at place
            -- the loop does not stand on the entry that is erased
            have other : (breaking.mapping.map Prod.snd).head? ≠ some id := by
              rw [← place.2.2.2]
              intro same
              exact spared.1 (by rw [here, same])
            refine ⟨place.1, place.2.1, place.2.2.1, ?_⟩
            rw [left, names, head_kept other]
            exact place.2.2.2
        | current => trivial
        | returned => exact absurd here runs.2.1
        | undefined => exact absurd here runs.2.2
    · cases taken
  · cases taken

end Cancelling

theorem step_served {less : Seq → Seq → Prop} [DecidableRel less] [IsStrictWeakOrder Seq less]
    {label : Label} (distinct : pending.Nodup) (served : Served pending err breaking)
    (place : AtBegin breaking) (spared : Spares less breaking label)
    (taken : step less breaking label = some next) : Served pending err next ∧ Onward next := by
  cases label with
  | cancelRecv id =>
      obtain ⟨kept, begin_⟩ := recvCancel_served distinct served place spared taken
      exact ⟨kept, Or.inl begin_⟩
  | cancelTill id =>
      obtain ⟨kept, begin_⟩ := recvTillCancel_served distinct served place spared taken
      exact ⟨kept, Or.inl begin_⟩
  | cancelBySeq id =>
      obtain ⟨kept, begin_⟩ := recvBySeqCancel_served distinct served place spared taken
      exact ⟨kept, Or.inl begin_⟩
  | bind getter minLen maxLen lener =>
      simp only [step] at taken
      split at taken
      · rename_i runs
        cases taken
        refine ⟨⟨served.order, served.code, served.codes, served.own⟩, Or.inl ?_⟩
        unfold AtBegin at place ⊢
        cases here : breaking.place with
        | bySeq it =>
            rw [here] at place
            refine ⟨?_, place.2⟩
            rw [bind_seqer, place.1, Bool.true_or]
        | returned => exact absurd here runs.2.1
        | _ =>
            rw [here] at place
            exact place
      · cases taken
  | destroy =>
      simp only [step] at taken
      split at taken
      · rename_i runs
        cases taken
        refine ⟨⟨served.order, served.code, served.codes, served.own⟩, Or.inl ?_⟩
        unfold AtBegin at place ⊢
        cases here : breaking.place with
        | returned => exact absurd here runs.2.1
        | _ =>
            rw [here] at place
            exact place
      · cases taken
  | back => exact back_served distinct served place taken

end Tracking

end Cocoflow.TcpBreaking
