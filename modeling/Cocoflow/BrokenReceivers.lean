import Mathlib.Data.List.Basic
import Mathlib.Data.List.Nodup
import Mathlib.Order.Defs.Unbundled
import Mathlib.Order.RelClasses
import Mathlib.Order.Nat
import Cocoflow.LabelledRuns
import Cocoflow.StableMultimap
import Cocoflow.LengthFraming
import Cocoflow.TcpConnection
import Cocoflow.PacketFraming
import Cocoflow.TcpBinding
import Cocoflow.TcpBreaking

/-!
Whole runs of an error callback. With a sequencer every receiver is resumed exactly once,
unless it was cancelled before, as long as the tasks spare what the loops hold. Without one the
callback still comes to `drop_all`.
-/

namespace Cocoflow.BrokenReceivers

open LabelledRuns StableMultimap TcpBreaking

universe u

def isBack : Label → Bool
  | .back => true
  | _ => false

/-- A `bind` that gets as far as to make a sequencer. -/
def installs : Label → Bool
  | .bind getter _ _ _ => getter
  | _ => false

def Over {Seq : Type u} (breaking : Breaking Seq) : Prop :=
  breaking.place = .returned ∨ breaking.place = .undefined

section Frame

variable {Seq : Type u} {breaking next : Breaking Seq}

structure Looped (before after : Breaking Seq) : Prop where
  framing : after.framing = before.framing
  alive : after.alive = before.alive
  mapping : after.mapping ⊆ before.mapping
  spent : Over after ∧ (remaining after).length = (remaining before).length ∨
    (remaining after).length < (remaining before).length

theorem bind_broken (framing : PacketFraming.Connected) (getter : Bool) (minLen maxLen : UInt64)
    (lener : Option PacketFraming.LenGetter) :
    (framing.bind getter minLen maxLen lener).2.broken = framing.broken := by
  unfold PacketFraming.Connected.bind PacketFraming.Connected.bindInner
  split
  · rfl
  · split <;> rfl

theorem filter_shorter {id : Nat} {ids : List Nat} (member : id ∈ ids) :
    (ids.filter fun other => other ≠ id).length < ids.length :=
  List.length_filter_lt_length_iff_exists.mpr ⟨id, member, by simp⟩

theorem dropAll_looped (it : Option Nat) : Looped breaking (breaking.dropAll it) := by
  cases it with
  | none => exact ⟨rfl, rfl, List.Subset.refl _, Or.inl ⟨Or.inl rfl, rfl⟩⟩
  | some id =>
      simp only [Breaking.dropAll]
      split
      · rename_i member
        refine ⟨rfl, rfl, List.filter_subset_self _, Or.inr ?_⟩
        have shorter := filter_shorter member
        have names : (breaking.mapping.filter fun entry => entry.2 ≠ id).map Prod.snd =
            (breaking.mapping.map Prod.snd).filter fun other => other ≠ id := by
          rw [List.filter_map]
          rfl
        simp only [remaining, Breaking.resume, List.length_append, names]
        omega
      · exact ⟨rfl, rfl, List.Subset.refl _, Or.inl ⟨Or.inr rfl, rfl⟩⟩

theorem breakBySeq_looped : Looped breaking breaking.breakBySeq := by
  unfold Breaking.breakBySeq
  split
  · exact dropAll_looped _
  · exact ⟨rfl, rfl, List.Subset.refl _, Or.inl ⟨Or.inr rfl, rfl⟩⟩

theorem breakQueue1_looped (it : Option Nat) : Looped breaking (breaking.breakQueue1 it) := by
  cases it with
  | none => exact breakBySeq_looped
  | some id =>
      simp only [Breaking.breakQueue1]
      split
      · rename_i member
        refine ⟨rfl, rfl, List.Subset.refl _, Or.inr ?_⟩
        have shorter := filter_shorter member
        simp only [remaining, Breaking.resume, List.length_append]
        omega
      · exact ⟨rfl, rfl, List.Subset.refl _, Or.inl ⟨Or.inr rfl, rfl⟩⟩

theorem breakQueue0_looped (it : Option Nat) : Looped breaking (breaking.breakQueue0 it) := by
  cases it with
  | none => exact breakQueue1_looped _
  | some id =>
      simp only [Breaking.breakQueue0]
      split
      · rename_i member
        refine ⟨rfl, rfl, List.Subset.refl _, Or.inr ?_⟩
        have shorter := filter_shorter member
        simp only [remaining, Breaking.resume, List.length_append]
        omega
      · exact ⟨rfl, rfl, List.Subset.refl _, Or.inl ⟨Or.inr rfl, rfl⟩⟩

theorem back_looped (taken : breaking.back = some next) : Looped breaking next := by
  rcases back_cases taken with ⟨-, rfl⟩ |
    ⟨-, ⟨-, rfl⟩ | ⟨it, -, rfl⟩ | ⟨it, -, rfl⟩ | ⟨it, -, rfl⟩⟩
  · exact ⟨rfl, rfl, List.Subset.refl _, Or.inl ⟨Or.inl rfl, rfl⟩⟩
  · exact breakQueue0_looped _
  · exact breakQueue0_looped it
  · exact breakQueue1_looped it
  · exact dropAll_looped it

theorem back_isSome (running : ¬Over breaking) : (breaking.back).isSome = true := by
  unfold Over at running
  unfold Breaking.back
  cases place : breaking.place with
  | returned => exact absurd (Or.inl place) running
  | undefined => exact absurd (Or.inr place) running
  | _ => rfl

variable {less : Seq → Seq → Prop} [DecidableRel less] {label : Label}

structure Stepped (label : Label) (before after : Breaking Seq) : Prop where
  running : ¬Over before
  seqer : after.framing.seqer = (before.framing.seqer || installs label)
  broken : after.framing.broken = before.framing.broken
  alive : after.alive = true → before.alive = true
  mapping : after.mapping ⊆ before.mapping
  spent : isBack label = false → after.place = before.place ∧
    (remaining after).length ≤ (remaining before).length
  back : isBack label = true → Over after ∧ (remaining after).length = (remaining before).length ∨
    (remaining after).length < (remaining before).length

theorem running_notOver (running : breaking.Running) : ¬Over breaking := by
  rintro (returned | undefined_)
  · exact running.2.1 returned
  · exact running.2.2 undefined_

theorem step_stepped (taken : step less breaking label = some next) :
    Stepped label breaking next := by
  cases label with
  | cancelRecv id =>
      simp only [step, Breaking.recvCancel] at taken
      split at taken
      · rename_i waits
        cases taken
        refine ⟨running_notOver waits.1, ?_, ?_, fun living => living, List.Subset.refl _,
          fun _ => ⟨rfl, ?_⟩, by simp [isBack]⟩
        · dsimp only
          split <;> simp [installs]
        · dsimp only
          split <;> rfl
        · have shorter := filter_shorter waits.2
          simp only [remaining, List.length_append]
          omega
      · cases taken
  | cancelTill id =>
      simp only [step, Breaking.recvTillCancel] at taken
      split at taken
      · rename_i waits
        cases taken
        refine ⟨running_notOver waits.1, by simp [installs], rfl, fun living => living,
          List.Subset.refl _, fun _ => ⟨rfl, ?_⟩, by simp [isBack]⟩
        have shorter := filter_shorter waits.2
        simp only [remaining, List.length_append]
        omega
      · cases taken
  | cancelBySeq id =>
      simp only [step, Breaking.recvBySeqCancel] at taken
      split at taken
      · rename_i entry _
        split at taken
        · rename_i runs
          cases taken
          refine ⟨running_notOver runs, by simp [installs], rfl, fun living => living,
            List.filter_subset_self _, fun _ => ⟨rfl, ?_⟩, by simp [isBack]⟩
          have fewer : (eraseKey less entry.1 breaking.mapping).length ≤ breaking.mapping.length :=
            List.length_filter_le _ _
          simp only [remaining, List.length_append, List.length_map]
          omega
        · cases taken
      · cases taken
  | bind getter minLen maxLen lener =>
      simp only [step] at taken
      split at taken
      · rename_i runs
        cases taken
        refine ⟨running_notOver runs, bind_seqer _ getter minLen maxLen lener, ?_,
          fun living => living, List.Subset.refl _, fun _ => ⟨rfl, Nat.le_refl _⟩, by simp [isBack]⟩
        exact bind_broken _ getter minLen maxLen lener
      · cases taken
  | destroy =>
      simp only [step] at taken
      split at taken
      · rename_i runs
        cases taken
        exact ⟨running_notOver runs, by simp [installs], rfl, fun _ => runs.1,
          List.Subset.refl _, fun _ => ⟨rfl, Nat.le_refl _⟩, by simp [isBack]⟩
      · cases taken
  | back =>
      have looped := back_looped taken
      refine ⟨?_, by simp [installs, looped.framing], by rw [looped.framing],
        fun living => looped.alive ▸ living, looped.mapping, by simp [isBack], fun _ => looped.spent⟩
      rintro (returned | undefined_)
      · simp [step, Breaking.back, returned] at taken
      · simp [step, Breaking.back, undefined_] at taken

def toDo (breaking : Breaking Seq) : Nat :=
  (remaining breaking).length +
    if breaking.place = .returned ∨ breaking.place = .undefined then 0 else 1

theorem backs_bounded {labels : List Label} {last : Breaking Seq}
    (run : replay (step less) breaking labels = some last) :
    labels.countP isBack ≤ toDo breaking := by
  have spends : ∀ before label after, step less before label = some after →
      toDo after + (if isBack label then 1 else 0) ≤ toDo before := by
    intro before label after taken
    have stepped := step_stepped taken
    have open_ : ¬(before.place = .returned ∨ before.place = .undefined) := stepped.running
    cases kind : isBack label with
    | false =>
        obtain ⟨place, fewer⟩ := stepped.spent kind
        simp only [toDo, place, if_neg open_, Bool.false_eq_true, if_false]
        omega
    | true =>
        rcases stepped.back kind with ⟨isOver, same⟩ | fewer
        · have closed : after.place = .returned ∨ after.place = .undefined := isOver
          simp only [toDo, if_pos closed, if_neg open_, if_true]
          omega
        · simp only [toDo, if_neg open_, if_true]
          split <;> omega
  have spent := replay_spends toDo isBack spends run
  omega

end Frame

section WithSequencer

variable {Seq : Type u} {pending : List Nat} {err : PacketFraming.Report}

variable {breaking next : Breaking Seq} {less : Seq → Seq → Prop} [DecidableRel less]
  {label : Label}

theorem cancelRecv_spares {id : Nat} (taken : step less breaking (.cancelRecv id) = some next)
    (valid : SavedValid next) : breaking.place ≠ .queue0 (some id) := by
  intro here
  unfold SavedValid at valid
  simp only [step, Breaking.recvCancel] at taken
  split at taken
  · cases taken
    simp [here] at valid
  · cases taken

theorem cancelTill_spares {id : Nat} (taken : step less breaking (.cancelTill id) = some next)
    (valid : SavedValid next) : breaking.place ≠ .queue1 (some id) := by
  intro here
  unfold SavedValid at valid
  simp only [step, Breaking.recvTillCancel] at taken
  split at taken
  · cases taken
    simp [here] at valid
  · cases taken

end WithSequencer

section WithoutSequencer

variable {Seq : Type u} {pending : List Nat} {breaking next : Breaking Seq}
  {less : Seq → Seq → Prop} [DecidableRel less] {label : Label}

/-- The callback has returned, and it gave `failure` to every request that was not cancelled,
once and in the order of the queue. -/
structure Finished (pending : List Nat) (breaking : Breaking Seq) : Prop where
  returned : breaking.place = .returned
  broken : breaking.framing.broken = true
  resumed : breaking.resumed =
    (pending.filter fun id => id ∉ breaking.cancelled).map fun id => (id, .failure)

theorem back_invalid (invalid : ¬SavedValid breaking) (taken : breaking.back = some next)
    (living : next.alive = true) : next.place = .undefined := by
  unfold SavedValid at invalid
  rcases back_cases taken with ⟨dead, rfl⟩ |
    ⟨-, ⟨here, rfl⟩ | ⟨it, here, rfl⟩ | ⟨it, here, rfl⟩ | ⟨it, here, rfl⟩⟩
  · exact absurd (dead.symm.trans living) Bool.false_ne_true
  · rw [here] at invalid
    exact absurd trivial invalid
  · rw [here] at invalid
    cases it with
    | none => exact absurd trivial invalid
    | some id => simp only [Breaking.breakQueue0, if_neg invalid]
  · rw [here] at invalid
    cases it with
    | none => exact absurd trivial invalid
    | some id => simp only [Breaking.breakQueue1, if_neg invalid]
  · rw [here] at invalid
    cases it with
    | none => exact absurd trivial invalid
    | some id => simp only [Breaking.dropAll, if_neg invalid]

theorem valid_of_fewer (valid : SavedValid next) (same : next.place = breaking.place)
    (queue0 : next.recvQueue0 ⊆ breaking.recvQueue0)
    (queue1 : next.recvQueue1 ⊆ breaking.recvQueue1)
    (mapping : next.mapping ⊆ breaking.mapping) : SavedValid breaking := by
  unfold SavedValid at valid ⊢
  rw [same] at valid
  cases place : breaking.place with
  | queue0 it =>
      rw [place] at valid
      cases it with
      | none => trivial
      | some id => exact queue0 valid
  | queue1 it =>
      rw [place] at valid
      cases it with
      | none => trivial
      | some id => exact queue1 valid
  | bySeq it =>
      rw [place] at valid
      cases it with
      | none => trivial
      | some id => exact List.map_subset Prod.snd mapping valid
  | undefined =>
      rw [place] at valid
      exact valid
  | _ => trivial

-- A bad iterator stays bad, and the loop does not survive it.
theorem step_invalid (invalid : ¬SavedValid breaking) (taken : step less breaking label = some next)
    (living : next.alive = true) : ¬SavedValid next := by
  intro valid
  cases label with
  | back =>
      have undefined_ := back_invalid invalid taken living
      unfold SavedValid at valid
      rw [undefined_] at valid
      exact valid
  | cancelRecv id =>
      simp only [step, Breaking.recvCancel] at taken
      split at taken
      · cases taken
        exact invalid (valid_of_fewer valid rfl (List.filter_subset_self _) (List.Subset.refl _) (List.Subset.refl _))
      · cases taken
  | cancelTill id =>
      simp only [step, Breaking.recvTillCancel] at taken
      split at taken
      · cases taken
        exact invalid (valid_of_fewer valid rfl (List.Subset.refl _) (List.filter_subset_self _) (List.Subset.refl _))
      · cases taken
  | cancelBySeq id =>
      simp only [step, Breaking.recvBySeqCancel] at taken
      split at taken
      · split at taken
        · cases taken
          exact invalid (valid_of_fewer valid rfl (List.Subset.refl _) (List.Subset.refl _) (List.filter_subset_self _))
        · cases taken
      · cases taken
  | bind getter minLen maxLen lener =>
      simp only [step] at taken
      split at taken
      · cases taken
        exact invalid (valid_of_fewer valid rfl (List.Subset.refl _) (List.Subset.refl _) (List.Subset.refl _))
      · cases taken
  | destroy =>
      simp only [step] at taken
      split at taken
      · cases taken
        cases living
      · cases taken

/-- An object without waiting `recv_by_seq` tasks whose loops have good iterators or have come
to the end. -/
structure Plain (pending : List Nat) (breaking : Breaking Seq) : Prop where
  broken : breaking.framing.broken = true
  served : Served pending .failure breaking
  onward : Onward breaking
  bare : breaking.mapping = []

theorem plain_begin (plain : Plain pending breaking)
    (taken : step less breaking label = some next) : AtBegin breaking := by
  rcases plain.onward with place | ⟨undefined_, -⟩
  · exact place
  · exact absurd (Or.inr undefined_) (step_stepped taken).running

theorem plain_step [IsStrictWeakOrder Seq less] (distinct : pending.Nodup)
    (plain : Plain pending breaking) (spared : Spares less breaking label)
    (taken : step less breaking label = some next) : Plain pending next := by
  obtain ⟨served, onward⟩ :=
    step_served distinct plain.served (plain_begin plain taken) spared taken
  have stepped := step_stepped taken
  refine ⟨by rw [stepped.broken, plain.broken], served, onward, ?_⟩
  exact List.subset_nil.mp (plain.bare ▸ stepped.mapping)

theorem plain_spares (plain : Plain pending breaking)
    (taken : step less breaking label = some next) (valid : SavedValid next) :
    Spares less breaking label := by
  cases label with
  | cancelRecv id => exact cancelRecv_spares taken valid
  | cancelTill id => exact cancelTill_spares taken valid
  | cancelBySeq id =>
      have none_ : breaking.waiting = [] := plain.served.own.trans plain.bare
      simp [step, Breaking.recvBySeqCancel, none_] at taken
  | bind getter minLen maxLen lener => trivial
  | destroy => trivial
  | back => trivial

-- If the callback returned and the object lives, no saved iterator ever was bad.
theorem plain_spared [IsStrictWeakOrder Seq less] (distinct : pending.Nodup) {labels : List Label}
    {last : Breaking Seq} (plain : Plain pending breaking)
    (run : replay (step less) breaking labels = some last) (living : last.alive = true)
    (returned : last.place = .returned) : Along (step less) (Spares less) breaking labels := by
  have good : SavedValid last := by
    unfold SavedValid
    rw [returned]
    trivial
  induction labels generalizing breaking with
  | nil => trivial
  | cons label rest ih =>
      obtain ⟨next, taken, tail⟩ := replay_cons run
      have spared : Spares less breaking label := by
        by_contra unspared
        -- a bad iterator would still be there at the end
        have bad : last.alive = true → ¬SavedValid last := by
          refine replay_always (fun state => state.alive = true → ¬SavedValid state) ?_
            (fun _ valid => unspared (plain_spares plain taken valid)) tail
          intro before other after invalid moved alive
          exact step_invalid (invalid ((step_stepped moved).alive alive)) moved alive
        exact bad living good
      refine ⟨spared, ?_⟩
      rw [taken]
      exact ih (plain_step distinct plain spared taken) tail

theorem seqer_run {labels : List Label} {last : Breaking Seq}
    (run : replay (step less) breaking labels = some last) :
    last.framing.seqer = (breaking.framing.seqer || labels.any installs) := by
  induction labels generalizing breaking with
  | nil =>
      cases run
      simp
  | cons label rest ih =>
      obtain ⟨next, taken, tail⟩ := replay_cons run
      rw [ih tail, (step_stepped taken).seqer, List.any_cons, Bool.or_assoc]

theorem plain_finished (plain : Plain pending breaking) (living : breaking.alive = true)
    (isOver : Over breaking) : Finished pending breaking ↔ breaking.framing.seqer = true := by
  have place := plain.onward
  rcases isOver with returned | undefined_
  · simp only [Onward, AtBegin, returned] at place
    obtain ⟨seqer, empty⟩ := (place.resolve_right (by simp)) living
    have order := plain.served.order
    rw [empty, List.append_nil] at order
    refine ⟨fun _ => seqer, fun _ => ⟨returned, plain.broken, ?_⟩⟩
    rw [← order, List.map_map]
    conv_lhs => rw [← List.map_id breaking.resumed]
    apply List.map_congr_left
    intro entry member
    exact Prod.ext rfl (plain.served.codes entry member)
  · simp only [Onward, AtBegin, undefined_, false_or, true_and] at place
    constructor
    · intro finished
      rw [finished.returned] at undefined_
      cases undefined_
    · intro seqer
      rw [place] at seqer
      cases seqer

theorem plain_settles [IsStrictWeakOrder Seq less] (distinct : pending.Nodup)
    (plain : Plain pending breaking) (absent : breaking.framing.seqer = false)
    {labels : List Label} {last : Breaking Seq}
    (run : replay (step less) breaking labels = some last) (living : last.alive = true)
    (isOver : Over last) :
    Finished pending last ↔
      Along (step less) (Spares less) breaking labels ∧ ∃ label ∈ labels, installs label = true := by
  have seqer : last.framing.seqer = true ↔ ∃ label ∈ labels, installs label = true := by
    rw [seqer_run run, absent, Bool.false_or, List.any_eq_true]
  have kept : Along (step less) (Spares less) breaking labels → Plain pending last := fun along =>
    replay_invariant (Plain pending)
      (fun _ _ _ plain spared taken => plain_step distinct plain spared taken) plain along run
  constructor
  · intro finished
    have along := plain_spared distinct plain run living finished.returned
    exact ⟨along, seqer.mp ((plain_finished (kept along) living isOver).mp finished)⟩
  · rintro ⟨along, installed⟩
    exact (plain_finished (kept along) living isOver).mpr (seqer.mpr installed)

theorem failedRead_plain (framing : PacketFraming.Connected) (current : Nat)
    (recvQueue0 recvQueue1 : List Nat) :
    Plain (current :: (recvQueue0 ++ recvQueue1))
      (failedRead Seq framing current recvQueue0 recvQueue1) := by
  refine ⟨rfl, ⟨?_, rfl, ?_, rfl⟩, Or.inl trivial, rfl⟩
  · simp [failedRead, remaining]
  · simp [failedRead]

/-- In every run of the error callback of an object without a sequencer, behind which the
object lives: the callback gives `failure` to all requests that were not cancelled and returns,
if and only if no task cancels the request that comes next in the queue and some task has
called `bind` with a getter in the meantime. The callback comes to its end. -/
theorem failed_read_iff [IsStrictWeakOrder Seq less] (framing : PacketFraming.Connected)
    (absent : framing.seqer = false) (current : Nat) (recvQueue0 recvQueue1 : List Nat)
    (distinct : (current :: (recvQueue0 ++ recvQueue1)).Nodup) (labels : List Label)
    (last : Breaking Seq)
    (run : replay (step less) (failedRead Seq framing current recvQueue0 recvQueue1) labels =
      some last) :
    (last.alive = true → Over last →
      (Finished (current :: (recvQueue0 ++ recvQueue1)) last ↔
        Along (step less) (Spares less) (failedRead Seq framing current recvQueue0 recvQueue1)
            labels ∧
          ∃ label ∈ labels, installs label = true)) ∧
    labels.countP isBack ≤ recvQueue0.length + recvQueue1.length + 1 ∧
    (¬Over last → (step less last .back).isSome = true) := by
  refine ⟨?_, ?_, back_isSome⟩
  · exact plain_settles distinct (failedRead_plain framing current recvQueue0 recvQueue1) absent run
  · have bounded := backs_bounded run
    have first : toDo (failedRead Seq framing current recvQueue0 recvQueue1) =
        recvQueue0.length + recvQueue1.length + 1 := by
      simp [toDo, failedRead, remaining]
    omega

/-- `tcp_recv_cb0` is the case of `recv` requests alone. -/
theorem tcpRecvCb0Failed_settles [IsStrictWeakOrder Seq less] {framing : PacketFraming.Connected}
    (absent : framing.seqer = false) {curAlloc0 : Nat} {recvQueue0 : List Nat}
    (distinct : (curAlloc0 :: recvQueue0).Nodup) {labels : List Label} {last : Breaking Seq}
    (run : replay (step less) (tcpRecvCb0Failed Seq framing curAlloc0 recvQueue0) labels =
      some last) (living : last.alive = true) (isOver : Over last) :
    Finished (curAlloc0 :: recvQueue0) last ↔
      Along (step less) (Spares less) (tcpRecvCb0Failed Seq framing curAlloc0 recvQueue0) labels ∧
        ∃ label ∈ labels, installs label = true := by
  have plain : Plain (curAlloc0 :: (recvQueue0 ++ []))
      (tcpRecvCb0Failed Seq framing curAlloc0 recvQueue0) :=
    failedRead_plain framing curAlloc0 recvQueue0 []
  rw [List.append_nil] at plain
  exact plain_settles distinct plain absent run living isOver

/-- And `tcp_recv_cb1` that of `recv_till` requests. -/
theorem tcpRecvCb1Failed_settles [IsStrictWeakOrder Seq less] {framing : PacketFraming.Connected}
    (absent : framing.seqer = false) {curAlloc1 : Nat} {recvQueue1 : List Nat}
    (distinct : (curAlloc1 :: recvQueue1).Nodup) {labels : List Label} {last : Breaking Seq}
    (run : replay (step less) (tcpRecvCb1Failed Seq framing curAlloc1 recvQueue1) labels =
      some last) (living : last.alive = true) (isOver : Over last) :
    Finished (curAlloc1 :: recvQueue1) last ↔
      Along (step less) (Spares less) (tcpRecvCb1Failed Seq framing curAlloc1 recvQueue1) labels ∧
        ∃ label ∈ labels, installs label = true :=
  plain_settles distinct (failedRead_plain framing curAlloc1 [] recvQueue1) absent run living isOver

def plainObject : PacketFraming.Connected := { receiving := .recv }

/-- A task binds the broken object before the loops are done. -/
theorem failed_read_bound : ∃ last,
    replay (step (· < ·)) (failedRead Nat plainObject 0 [1] [])
        [.bind true 4 16 none, .back, .back] = some last ∧ Finished [0, 1] last := by
  have order : IsStrictWeakOrder Nat (· < ·) := isStrictWeakOrder_of_isOrderConnected
  have reached : (replay (step (· < ·)) (failedRead Nat plainObject 0 [1] [])
      [.bind true 4 16 none, .back, .back]).isSome := by decide
  exact ⟨_, (Option.some_get reached).symm,
    ((failed_read_iff plainObject rfl 0 [1] [] (by decide) _ _ (Option.some_get reached).symm).1
      (by decide +revert) (Or.inl (by decide +revert))).mpr
      ⟨by decide, .bind true 4 16 none, by simp, rfl⟩⟩

/-- One pending `recv`, whose task does nothing: the callback runs into the missing sequencer. -/
theorem failed_read_undefined : ¬∀ (framing : PacketFraming.Connected),
    framing.receiving = .recv → framing.seqer = false →
    ∀ (curAlloc0 : Nat) (recvQueue0 : List Nat), (curAlloc0 :: recvQueue0).Nodup →
    ∀ (labels : List Label) (last : Breaking Nat),
    replay (step (· < ·)) (tcpRecvCb0Failed Nat framing curAlloc0 recvQueue0) labels =
      some last → last.alive = true → Over last →
      Finished (curAlloc0 :: recvQueue0) last := by
  intro claimed
  have reached : (replay (step (· < ·)) (tcpRecvCb0Failed Nat plainObject 0 []) [.back]).isSome := by
    decide
  have stuck : ((replay (step (· < ·)) (tcpRecvCb0Failed Nat plainObject 0 []) [.back]).get
      reached).place = .undefined := by decide +revert
  have finished := claimed plainObject rfl rfl 0 [] (by decide) _ _ (Option.some_get reached).symm
    (by decide +revert) (Or.inr stuck)
  rw [finished.returned] at stuck
  cases stuck

end WithoutSequencer

end Cocoflow.BrokenReceivers
