import Mathlib.Data.List.Basic
import Mathlib.Data.List.Nodup
import Mathlib.Data.List.Pairwise
import Mathlib.Order.Defs.Unbundled
import Mathlib.Order.RelClasses
import Mathlib.Order.Nat
import Cocoflow.LabelledRuns
import Cocoflow.StableMultimap
import Cocoflow.TcpConnection
import Cocoflow.Sequencer
import Cocoflow.UdpSocket

/-!
Which datagrams reach a registered `recv_by_seq`. A socket that was first read for plain
`recv` keeps the plain callbacks when a sequencer is bound later, and the end of a plain
callback stops the socket whenever no `recv` is queued. A registration is safe exactly when
neither happens to it.
-/

namespace Cocoflow.UdpRouting

open LabelledRuns StableMultimap TcpConnection Sequencer UdpSocket

universe u

section Routing

variable {Seq : Type u} [Inhabited Seq] (less : Seq → Seq → Prop) [DecidableRel less]
  (getter : SeqGetter Seq)

def mapping (socket : Udp Seq) : List (Seq × Receiver) :=
  match socket.seqer with
  | none => []
  | some seqer => seqer.mapping

/-- Every registered `recv_by_seq` would get the next datagram with its sequence. -/
def Reaches (socket : Udp Seq) : Prop :=
  ∀ entry ∈ mapping socket, socket.receiving = .recvBySeq ∧ socket.reading = some .cb1 ∧
    ∀ seqer bytes addr, socket.seqer = some seqer → socket.standing = none → bytes ≠ [] →
      0 ≤ (getter (bytes.take routingBufSize) seqer.curSeq).1 →
      Equivalent less (getter (bytes.take routingBufSize) seqer.curSeq).2 entry.1 →
        ∃ next delivery, step less getter socket (.datagram bytes addr) = some next ∧
          next.fates = socket.fates ++ [.bySeq delivery] ∧ delivery.receiver = entry.2.id

/-- No two suspended `recv_by_seq` wait for equivalent keys. -/
def DistinctKeys (socket : Udp Seq) : Label Seq → Prop
  | .recvBySeq seq _ _ => ∀ entry ∈ socket.waiting, ¬Equivalent less seq entry.1
  | _ => True

/-- A `recv_by_seq` does not join a socket that is read for plain `recv`, and the end of a
plain callback does not stop a socket on which one is registered. -/
def Unmixed (socket : Udp Seq) : Label Seq → Prop
  | .recvBySeq _ _ _ => socket.receiving ≠ .recv
  | .back => socket.standing = some .plain → socket.recvQueue = [] → mapping socket = []
  | _ => True

instance (socket : Udp Seq) : (label : Label Seq) → Decidable (DistinctKeys less socket label)
  | .recvBySeq seq _ _ =>
      inferInstanceAs (Decidable (∀ entry ∈ socket.waiting, ¬Equivalent less seq entry.1))
  | .bindSeqer | .ignoreRecv | .recv _ _ | .cancelRecv _ | .cancelBySeq _ | .datagram _ _
  | .back => isTrue trivial

instance (socket : Udp Seq) : Decidable (mapping socket = []) :=
  match mapping socket with
  | [] => isTrue rfl
  | _ :: _ => isFalse (by simp)

instance (socket : Udp Seq) : (label : Label Seq) → Decidable (Unmixed socket label)
  | .recvBySeq _ _ _ => inferInstanceAs (Decidable (socket.receiving ≠ .recv))
  | .back => inferInstanceAs (Decidable
      (socket.standing = some .plain → socket.recvQueue = [] → mapping socket = []))
  | .bindSeqer | .ignoreRecv | .recv _ _ | .cancelRecv _ | .cancelBySeq _
  | .datagram _ _ => isTrue trivial

def callbacksOf : UdpSocket.Receiving → Option Callbacks
  | .ready => none
  | .recv => some .cb0
  | .recvBySeq => some .cb1
  | .ignore => some .cb2

structure Books (socket : Udp Seq) : Prop where
  agree : socket.reading = callbacksOf socket.receiving
  unique : (mapping socket).Pairwise fun one other => ¬Equivalent less one.1 other.1
  pending : ∀ entry ∈ mapping socket, entry ∈ socket.waiting
  fresh : ∀ entry ∈ socket.waiting, entry.2.id < socket.next
  nodup : (socket.waiting.map fun entry => entry.2.id).Nodup

end Routing

section Runs

variable {Seq : Type u} {less : Seq → Seq → Prop} {socket next : Udp Seq}

theorem books_kept (books : Books less socket) (agree : next.reading = callbacksOf next.receiving)
    (seqer : mapping next = mapping socket) (waiting : next.waiting = socket.waiting)
    (ids : socket.next ≤ next.next) : Books less next where
  agree := agree
  unique := by
    rw [seqer]
    exact books.unique
  pending := by
    rw [seqer, waiting]
    exact books.pending
  fresh := by
    rw [waiting]
    exact fun entry member => Nat.lt_of_lt_of_le (books.fresh entry member) ids
  nodup := by
    rw [waiting]
    exact books.nodup

theorem recvStart_eq {receiving : UdpSocket.Receiving} {callbacks : Callbacks}
    (taken : socket.recvStart receiving callbacks = some next) :
    next = { socket with receiving := receiving, reading := some callbacks } := by
  unfold Udp.recvStart at taken
  split at taken
  · exact (Option.some.inj taken).symm
  · cases taken

theorem waiting_same {entry other : Seq × Receiver} (books : Books less socket)
    (member : entry ∈ socket.waiting) (again : other ∈ socket.waiting)
    (same : entry.2.id = other.2.id) : entry = other :=
  List.inj_on_of_nodup_map books.nodup member again same

theorem books_erased {entry : Seq × Receiver} {seqer : Seqer Seq Receiver}
    (books : Books less socket) (agree : next.reading = callbacksOf next.receiving)
    (member : entry ∈ socket.waiting) (shown : next.seqer = some seqer)
    (left : seqer.mapping.Sublist (mapping socket)) (gone : entry ∉ seqer.mapping)
    (waiting : next.waiting = socket.waiting.filter fun other => other.2.id ≠ entry.2.id)
    (ids : next.next = socket.next) : Books less next where
  agree := agree
  unique := by
    simp only [mapping, shown]
    exact books.unique.sublist left
  pending := by
    simp only [mapping, shown]
    intro other stays
    have before := books.pending other (left.subset stays)
    rw [waiting, List.mem_filter]
    refine ⟨before, ?_⟩
    simp only [decide_eq_true_eq]
    intro same
    rw [waiting_same books before member same] at stays
    exact gone stays
  fresh := by
    rw [waiting, ids]
    exact fun other stays => books.fresh other (List.mem_of_mem_filter stays)
  nodup := by
    rw [waiting]
    exact books.nodup.sublist ((List.filter_sublist).map _)

theorem books_recv {buf : Bool} {len : Nat} (books : Books less socket)
    (taken : socket.recvRun buf len = some next) : Books less next := by
  unfold Udp.recvRun at taken
  split at taken
  · cases taken
  · obtain ⟨started, start, rfl⟩ := Option.map_eq_some_iff.mp taken
    split at start
    · split at start
      · rw [recvStart_eq start]
        exact books_kept books rfl rfl rfl (Nat.le_succ _)
      · rw [recvStart_eq start]
        exact books_kept books rfl rfl rfl (Nat.le_succ _)
    · cases start
      exact books_kept books books.agree rfl rfl (Nat.le_succ _)

theorem books_cancelRecv {id : Nat} (books : Books less socket)
    (taken : socket.recvCancel id = some next) : Books less next := by
  unfold Udp.recvCancel at taken
  split at taken
  · dsimp only at taken
    split at taken
    · cases taken
      exact books_kept books rfl rfl rfl (Nat.le_refl _)
    · cases taken
      exact books_kept books books.agree rfl rfl (Nat.le_refl _)
  · cases taken

theorem books_cb0 {bytes : List Byte} {addr : SockAddr} (books : Books less socket)
    (taken : socket.udpRecvCb0 bytes addr = some next) : Books less next := by
  unfold Udp.udpRecvCb0 at taken
  split at taken
  · cases taken
  · dsimp only at taken
    split at taken
    · cases taken
      exact books
    · cases taken
      exact books_kept books books.agree rfl rfl (Nat.le_refl _)

theorem books_back (books : Books less socket) : Books less socket.udpRecvCb0Back := by
  unfold Udp.udpRecvCb0Back
  dsimp only
  split
  · exact books_kept books rfl rfl rfl (Nat.le_refl _)
  · exact books_kept books books.agree rfl rfl (Nat.le_refl _)

variable [DecidableRel less] {getter : SeqGetter Seq}

theorem recvBySeqRun_cases {seq : Seq} {buf : Bool} {len : Nat}
    (taken : socket.recvBySeqRun less seq buf len = some next) :
    ∃ seqer, socket.seqer = some seqer ∧ socket.receiving ≠ .ignore ∧
      next.seqer = some (seqer.insert less seq { id := socket.next, buf := buf, len := len }) ∧
      next.waiting = socket.waiting ++ [(seq, { id := socket.next, buf := buf, len := len })] ∧
      next.next = socket.next + 1 ∧
      (socket.receiving = .ready ∧ next.receiving = .recvBySeq ∧ next.reading = some .cb1 ∨
        socket.receiving ≠ .ready ∧ next.receiving = socket.receiving ∧
          next.reading = socket.reading) := by
  unfold Udp.recvBySeqRun at taken
  split at taken
  · cases taken
  · rename_i seqer shown
    split at taken
    · cases taken
    · rename_i listening
      obtain ⟨started, start, rfl⟩ := Option.map_eq_some_iff.mp taken
      split at start
      · rename_i ready
        rw [recvStart_eq start]
        exact ⟨seqer, shown, listening, rfl, rfl, rfl, Or.inl ⟨ready, rfl, rfl⟩⟩
      · rename_i busy
        cases start
        exact ⟨seqer, shown, listening, rfl, rfl, rfl, Or.inr ⟨busy, rfl, rfl⟩⟩

theorem books_recvBySeq {seq : Seq} {buf : Bool} {len : Nat} (books : Books less socket)
    (distinct : ∀ entry ∈ socket.waiting, ¬Equivalent less seq entry.1)
    (taken : socket.recvBySeqRun less seq buf len = some next) : Books less next := by
  obtain ⟨seqer, shown, -, inserted, waiting, ids, mode⟩ := recvBySeqRun_cases taken
  have before : mapping socket = seqer.mapping := by simp only [mapping, shown]
  have after : mapping next = StableMultimap.insert less
      (seq, { id := socket.next, buf := buf, len := len }) seqer.mapping := by
    simp only [mapping, inserted, Seqer.insert]
  have symmetric : ∀ {one other : Seq × Receiver}, ¬Equivalent less one.1 other.1 →
      ¬Equivalent less other.1 one.1 := fun apart same => apart (equivalent_symm same)
  refine ⟨?_, ?_, fun entry member => ?_, fun entry member => ?_, ?_⟩
  · rcases mode with ⟨-, receiving, reading⟩ | ⟨-, receiving, reading⟩
    · rw [receiving, reading]
      rfl
    · rw [receiving, reading, books.agree]
  · rw [after, (insert_perm _ _).pairwise_iff symmetric, List.pairwise_cons, ← before]
    exact ⟨fun entry member => distinct entry (books.pending entry member), books.unique⟩
  · rw [after, mem_insert, ← before] at member
    rw [waiting, List.mem_append]
    rcases member with rfl | earlier
    · exact Or.inr (by simp)
    · exact Or.inl (books.pending entry earlier)
  · rw [waiting, List.mem_append] at member
    rw [ids]
    rcases member with earlier | last
    · exact Nat.lt_succ_of_lt (books.fresh entry earlier)
    · rw [List.mem_singleton.mp last]
      exact Nat.lt_succ_self _
  · rw [waiting, List.map_append, List.nodup_append]
    refine ⟨books.nodup, by simp, fun id member other last => ?_⟩
    obtain ⟨entry, earlier, rfl⟩ := List.mem_map.mp member
    have less := books.fresh entry earlier
    simp only [List.map_cons, List.map_nil, List.mem_singleton] at last
    omega

theorem books_cancelBySeq [IsStrictWeakOrder Seq less] {id : Nat} (books : Books less socket)
    (taken : socket.recvBySeqCancel less id = some next) : Books less next := by
  unfold Udp.recvBySeqCancel at taken
  split at taken
  · rename_i entry seqer found shown
    cases taken
    have member := List.mem_of_find?_eq_some found
    have same : entry.2.id = id := by simpa using List.find?_some found
    subst same
    refine books_erased books books.agree member rfl ?_ ?_ rfl rfl
    · simp only [mapping, shown, Seqer.erase]
      exact List.filter_sublist
    · intro stays
      have apart := (List.mem_filter.mp stays).2
      simp [matching, equivalent_refl] at apart
  · cases taken

section Callback

variable {bytes : List Byte} {addr : SockAddr}

theorem books_cb1 [IsStrictWeakOrder Seq less] (books : Books less socket)
    (taken : socket.udpRecvCb1 less getter bytes addr = some next) : Books less next := by
  by_cases nonempty : bytes.take routingBufSize = []
  · simp only [Udp.udpRecvCb1, if_pos nonempty] at taken
    cases taken
    exact books
  · cases shown : socket.seqer with
    | none => simp [Udp.udpRecvCb1, nonempty, shown] at taken
    | some seqer =>
        have before : mapping socket = seqer.mapping := by simp only [mapping, shown]
        cases found : seqer.picked less getter (bytes.take routingBufSize) with
        | some entry =>
            rw [udpRecvCb1_picked shown nonempty found] at taken
            cases taken
            obtain ⟨-, first⟩ := Seqer.picked_found found
            obtain ⟨-, earlier, later, split, left⟩ := find?_split first
            have unique := books.unique
            rw [before, split, List.pairwise_append, List.pairwise_cons] at unique
            obtain ⟨-, ⟨behind, -⟩, ahead⟩ := unique
            have inside : entry ∈ mapping socket := by
              rw [before, split]
              simp
            refine books_erased books books.agree (books.pending entry inside) rfl ?_ ?_ rfl rfl
            · rw [before, split]
              rw [split] at left
              rw [left]
              exact List.Sublist.append_left (List.sublist_cons_self _ _) _
            · rw [left, List.mem_append]
              rintro (member | member)
              · exact ahead entry member entry (by simp) (equivalent_refl _)
              · exact behind entry member (equivalent_refl _)
        | none =>
            cases queue : socket.recvQueue with
            | nil =>
                rw [udpRecvCb1_counted shown nonempty found queue] at taken
                dsimp only at taken
                split at taken
                · cases taken
                  exact books_kept books books.agree before.symm rfl (Nat.le_refl _)
                · cases taken
                  exact books_kept books books.agree before.symm rfl (Nat.le_refl _)
            | cons receiver rest =>
                rw [udpRecvCb1_queued shown nonempty found queue] at taken
                cases taken
                exact books_kept books books.agree before.symm rfl (Nat.le_refl _)

end Callback

/-- A registration makes the object read for sequences. -/
def Routed (socket : Udp Seq) : Prop := mapping socket ≠ [] → socket.receiving = .recvBySeq

theorem routed_kept (routed : Routed socket) (receiving : next.receiving = socket.receiving)
    (left : mapping next ≠ [] → mapping socket ≠ []) : Routed next := by
  intro registered
  rw [receiving]
  exact routed (left registered)

theorem unregistered (routed : Routed socket) (other : socket.receiving ≠ .recvBySeq) :
    mapping socket = [] := by
  by_contra registered
  exact other (routed registered)

theorem routed_recv {buf : Bool} {len : Nat} (routed : Routed socket)
    (taken : socket.recvRun buf len = some next) : Routed next := by
  unfold Udp.recvRun at taken
  split at taken
  · cases taken
  · obtain ⟨started, start, rfl⟩ := Option.map_eq_some_iff.mp taken
    split at start
    · rename_i ready
      have empty := unregistered routed (by rw [ready]; simp)
      split at start
      · rw [recvStart_eq start]
        exact fun registered => absurd empty registered
      · rw [recvStart_eq start]
        exact fun registered => absurd empty registered
    · cases start
      exact routed_kept routed rfl id

theorem routed_cancelRecv {id : Nat} (routed : Routed socket)
    (taken : socket.recvCancel id = some next) : Routed next := by
  unfold Udp.recvCancel at taken
  split at taken
  · dsimp only at taken
    split at taken
    · rename_i stops
      cases taken
      have empty := unregistered routed (by rw [stops.1]; simp)
      exact fun registered => absurd empty registered
    · cases taken
      exact routed_kept routed rfl fun registered => registered
  · cases taken

theorem routed_cb1 {bytes : List Byte} {addr : SockAddr} (routed : Routed socket)
    (taken : socket.udpRecvCb1 less getter bytes addr = some next) : Routed next := by
  by_cases nonempty : bytes.take routingBufSize = []
  · simp only [Udp.udpRecvCb1, if_pos nonempty] at taken
    cases taken
    exact routed
  · cases shown : socket.seqer with
    | none => simp [Udp.udpRecvCb1, nonempty, shown] at taken
    | some seqer =>
        have before : mapping socket = seqer.mapping := by simp only [mapping, shown]
        have kept : ∀ left : List (Seq × Receiver), left.Sublist seqer.mapping → left ≠ [] →
            mapping socket ≠ [] := by
          intro left inside nonempty empty
          rw [before] at empty
          rw [empty] at inside
          exact nonempty (List.sublist_nil.mp inside)
        cases found : seqer.picked less getter (bytes.take routingBufSize) with
        | some entry =>
            rw [udpRecvCb1_picked shown nonempty found] at taken
            cases taken
            exact routed_kept routed rfl (kept _ List.eraseP_sublist)
        | none =>
            cases queue : socket.recvQueue with
            | nil =>
                rw [udpRecvCb1_counted shown nonempty found queue] at taken
                dsimp only at taken
                split at taken
                · cases taken
                  exact routed_kept routed rfl (kept _ (List.Sublist.refl _))
                · cases taken
                  exact routed_kept routed rfl (kept _ (List.Sublist.refl _))
            | cons receiver rest =>
                rw [udpRecvCb1_queued shown nonempty found queue] at taken
                cases taken
                exact routed_kept routed rfl (kept _ (List.Sublist.refl _))

variable [Inhabited Seq] {labels : List (Label Seq)}

omit [DecidableRel less] in
theorem books_bindSeqer (books : Books less socket) : Books less socket.bindSeqer := by
  unfold Udp.bindSeqer
  split
  · exact books
  · rename_i absent
    refine books_kept books books.agree ?_ rfl (Nat.le_refl _)
    cases shown : socket.seqer with
    | none => simp only [mapping, shown]
    | some seqer => simp [shown] at absent

theorem books_step [IsStrictWeakOrder Seq less] (label : Label Seq) (books : Books less socket)
    (distinct : DistinctKeys less socket label)
    (taken : step less getter socket label = some next) : Books less next := by
  cases label with
  | bindSeqer =>
      cases taken
      exact books_bindSeqer books
  | ignoreRecv =>
      simp only [step, Udp.ignoreRecv] at taken
      split at taken
      · rw [recvStart_eq taken]
        exact books_kept books rfl rfl rfl (Nat.le_refl _)
      · cases taken
  | recv buf len => exact books_recv books taken
  | recvBySeq seq buf len => exact books_recvBySeq books distinct taken
  | cancelRecv id => exact books_cancelRecv books taken
  | cancelBySeq id => exact books_cancelBySeq books taken
  | datagram bytes addr =>
      simp only [step] at taken
      split at taken
      · cases taken
      · split at taken
        · cases taken
        · exact books_cb0 books taken
        · exact books_cb1 books taken
        · split at taken
          · cases taken
            exact books
          · cases taken
            exact books_kept books books.agree rfl rfl (Nat.le_refl _)
  | back =>
      simp only [step] at taken
      split at taken
      · cases taken
      · cases taken
        exact books_back books
      · cases taken
        exact books_kept books books.agree rfl rfl (Nat.le_refl _)

theorem reaches_iff [IsStrictWeakOrder Seq less] (books : Books less socket) :
    Reaches less getter socket ↔ Routed socket := by
  constructor
  · intro reaches registered
    obtain ⟨entry, member⟩ := List.exists_mem_of_ne_nil _ registered
    exact (reaches entry member).1
  · intro routed entry member
    have receiving := routed (List.ne_nil_of_mem member)
    have reading : socket.reading = some .cb1 := by
      rw [books.agree, receiving]
      rfl
    refine ⟨receiving, reading, fun seqer bytes addr shown outside nonempty valid same => ?_⟩
    have before : mapping socket = seqer.mapping := by simp only [mapping, shown]
    rw [before] at member
    have packet : bytes.take routingBufSize ≠ [] := by
      simp [routingBufSize, nonempty]
    obtain ⟨first, found⟩ : ∃ first,
        find? less (getter (bytes.take routingBufSize) seqer.curSeq).2 seqer.mapping =
          some first :=
      Option.isSome_iff_exists.mp (List.find?_isSome.mpr ⟨entry, member, decide_eq_true same⟩)
    -- keys are distinct, so the first match is the only one
    obtain ⟨alike, -⟩ := find?_split found
    have only : first = entry := by
      by_contra apart
      have symmetric : Std.Symm fun one other : Seq × Receiver => ¬Equivalent less one.1 other.1 :=
        ⟨fun one other apart back => apart (equivalent_symm back)⟩
      have unique := books.unique
      rw [before] at unique
      exact unique.forall (List.mem_of_find?_eq_some found) member apart
        (equivalent_trans (equivalent_symm alike) same)
    subst only
    have picked : seqer.picked less getter (bytes.take routingBufSize) = some first := by
      rw [Seqer.picked, if_pos valid]
      exact found
    have taken : step less getter socket (.datagram bytes addr) =
        socket.udpRecvCb1 less getter bytes addr := by
      simp only [step, outside, reading]
      rfl
    rw [taken, udpRecvCb1_picked shown packet picked]
    exact ⟨_, _, rfl, rfl, rfl⟩

theorem routed_step {label : Label Seq} (routed : Routed socket)
    (taken : step less getter socket label = some next) :
    Routed next ↔ Unmixed socket label := by
  cases label with
  | bindSeqer =>
      cases taken
      refine iff_of_true ?_ trivial
      unfold Udp.bindSeqer
      split
      · exact routed
      · exact fun registered => absurd rfl registered
  | ignoreRecv =>
      simp only [step, Udp.ignoreRecv] at taken
      split at taken
      · rename_i ready
        rw [recvStart_eq taken]
        have empty := unregistered routed (by rw [ready]; simp)
        exact iff_of_true (fun registered => absurd empty registered) trivial
      · cases taken
  | recv buf len => exact iff_of_true (routed_recv routed taken) trivial
  | cancelRecv id => exact iff_of_true (routed_cancelRecv routed taken) trivial
  | recvBySeq seq buf len =>
      obtain ⟨seqer, -, listens, inserted, -, -, mode⟩ := recvBySeqRun_cases taken
      have registered : mapping next ≠ [] := by
        simp only [mapping, inserted, Seqer.insert]
        exact List.ne_nil_of_mem ((mem_insert _ _ _).mpr (Or.inl rfl))
      -- the first registration decides: a busy socket keeps its mode
      have shown : Routed next ↔ next.receiving = .recvBySeq :=
        ⟨fun routed => routed registered, fun receiving _ => receiving⟩
      rw [shown]
      rcases mode with ⟨ready, receiving, -⟩ | ⟨busy, receiving, -⟩
      · exact iff_of_true receiving (by simp [Unmixed, ready])
      · rw [receiving]
        unfold Unmixed
        cases mode : socket.receiving with
        | ready => exact absurd mode busy
        | ignore => exact absurd mode listens
        | recv => simp
        | recvBySeq => simp
  | cancelBySeq id =>
      refine iff_of_true ?_ trivial
      simp only [step, Udp.recvBySeqCancel] at taken
      split at taken
      · rename_i entry seqer found shown
        cases taken
        refine routed_kept routed rfl fun left empty => left ?_
        have before : seqer.mapping = [] := by simpa only [mapping, shown] using empty
        simp only [mapping, Seqer.erase, before]
        rfl
      · cases taken
  | datagram bytes addr =>
      refine iff_of_true ?_ trivial
      simp only [step] at taken
      split at taken
      · cases taken
      · split at taken
        · cases taken
        · unfold Udp.udpRecvCb0 at taken
          split at taken
          · cases taken
          · dsimp only at taken
            split at taken
            · cases taken
              exact routed
            · cases taken
              exact routed_kept routed rfl fun registered => registered
        · exact routed_cb1 routed taken
        · split at taken
          · cases taken
            exact routed
          · cases taken
            exact routed_kept routed rfl fun registered => registered
  | back =>
      simp only [step] at taken
      split at taken
      · cases taken
      · rename_i standing
        cases taken
        simp only [Unmixed, standing, forall_const]
        unfold Udp.udpRecvCb0Back
        dsimp only
        split
        · rename_i empty
          rw [empty]
          constructor
          · intro still _
            -- with an empty queue the socket falls back to ready and forgets the registrations
            by_contra registered
            have ready := still registered
            cases ready
          · intro gone registered
            exact absurd (gone rfl) registered
        · rename_i queued
          refine iff_of_true (routed_kept routed rfl fun registered => registered) ?_
          exact fun empty => absurd empty queued
      · rename_i standing
        cases taken
        refine iff_of_true (routed_kept routed rfl fun registered => registered) ?_
        intro plain
        rw [standing] at plain
        cases plain

theorem reaches_along [IsStrictWeakOrder Seq less] {last : Udp Seq} (books : Books less socket)
    (routed : Routed socket) (run : replay (step less getter) socket labels = some last)
    (distinct : Along (step less getter) (DistinctKeys less) socket labels) :
    Throughout (step less getter) (Reaches less getter) socket labels ↔
      Along (step less getter) Unmixed socket labels := by
  induction labels generalizing socket with
  | nil => exact iff_of_true ((reaches_iff books).mpr routed) trivial
  | cons label rest ih =>
      obtain ⟨next, taken, tail⟩ := replay_cons run
      obtain ⟨apart, later⟩ := along_cons distinct taken
      have kept := books_step label books apart taken
      have routes := routed_step routed taken
      simp only [Throughout, Along, taken, Option.elim_some]
      constructor
      · rintro ⟨-, reached⟩
        have onward := (reaches_iff kept).mp (throughout_first reached)
        exact ⟨routes.mp onward, (ih kept onward tail later).mp reached⟩
      · rintro ⟨unmixed, onward⟩
        exact ⟨(reaches_iff books).mpr routed,
          (ih kept (routes.mpr unmixed) tail later).mpr onward⟩

omit [DecidableRel less] [Inhabited Seq] in
theorem books_new : Books less ({} : Udp Seq) where
  agree := rfl
  unique := List.Pairwise.nil
  pending := by simp [mapping]
  fresh := by simp
  nodup := by simp

/-- In a run with distinct keys every registered `recv_by_seq` is in reach of its datagram in
every state if and only if no step mixes plain reading with a registration. -/
theorem recv_by_seq_reached_iff [IsStrictWeakOrder Seq less] (labels : List (Label Seq))
    (last : Udp Seq) (run : replay (step less getter) {} labels = some last)
    (distinct : Along (step less getter) (DistinctKeys less) {} labels) :
    Throughout (step less getter) (Reaches less getter) {} labels ↔
      Along (step less getter) Unmixed {} labels :=
  reaches_along books_new (fun registered => absurd rfl registered) run distinct

end Runs

def firstByte : SeqGetter Nat := fun packet old =>
  match packet with
  | [] => (-1, old)
  | byte :: _ => (0, byte.toNat)

/-- A sequencer, a `recv` and two registrations; the datagrams arrive in the other order. -/
def boundFirst : List (Label Nat) :=
  [.bindSeqer, .recv true 8, .recvBySeq 5 true 8, .recvBySeq 6 false 0,
    .datagram [6, 1] (.inet []), .back, .datagram [5, 2] (.inet []), .back]

theorem recv_by_seq_reached_bound :
    Throughout (step (· < ·) firstByte) (Reaches (· < ·) firstByte) {} boundFirst := by
  have order : IsStrictWeakOrder Nat (· < ·) := isStrictWeakOrder_of_isOrderConnected
  have reached : (replay (step (· < ·) firstByte) {} boundFirst).isSome := by decide
  exact (recv_by_seq_reached_iff boundFirst _ (Option.some_get reached).symm (by decide)).mpr
    (by decide)

/-- A `recv` that came before the sequencer keeps the plain callbacks in use. -/
theorem recv_by_seq_missed : ¬∀ (labels : List (Label Nat)) (last : Udp Nat),
    replay (step (· < ·) firstByte) {} labels = some last →
    Along (step (· < ·) firstByte) (DistinctKeys (· < ·)) {} labels →
      Reaches (· < ·) firstByte last := by
  intro claimed
  have reached : (replay (step (· < ·) firstByte) {}
      [.recv true 8, .bindSeqer, .recvBySeq 5 true 8]).isSome := by decide
  have plain : ((replay (step (· < ·) firstByte) {}
      [.recv true 8, .bindSeqer, .recvBySeq 5 true 8]).get reached).receiving = .recv := by
    decide +revert
  have registered := claimed _ _ (Option.some_get reached).symm (by decide)
    (5, { id := 1, buf := true, len := 8 }) (by decide +revert)
  rw [plain] at registered
  cases registered.1

end Cocoflow.UdpRouting
