import Mathlib.Data.List.Nodup
import Mathlib.Logic.Function.Basic
import Cocoflow.LabelledRuns
import Cocoflow.PointUpdates
import Cocoflow.PrimitiveTasks
import Cocoflow.PrimitiveLinks
import Cocoflow.TcpStreams

/-!
The requests of `connect` and `send` tasks have their seats at the sockets. As long as no
`connected` is destroyed while a task waits on it, and none is given to an `accept` while it
connects, every waiting task finds its request there, is answered or cancelled once, and learns
what became of its `connected`.
-/

namespace Cocoflow.TcpSeats

open LabelledRuns PointUpdates PrimitiveTasks PrimitiveLinks TcpStreams

def Seat (streams : Streams) (handle place : Nat) (kind : Kind) : Prop :=
  ∃ sock, streams.socks handle = some sock ∧
    (kind = .connect ∧ sock.connectReq = some place ∨ kind = .send ∧ place ∈ sock.writeQueue)

/-- Every waiting task has its request at the socket of its `connected`, which is there and, for
a `connect`, not yet established. -/
structure Seated (world : World Operation Streams) : Prop where
  held : ∀ handle place kind, Seat world.memory.extra handle place kind →
    ∃ found, world.memory.requests place = some found ∧ found.phase = .pending ∧
      (found.data = none → kind = .connect) ∧ ∀ task, found.data = some task →
        ∀ entry, world.tasks task = some entry →
          entry.object.kind = kind ∧ entry.object.handle = handle
  apart : ∀ handle place kind handle' kind', Seat world.memory.extra handle place kind →
    Seat world.memory.extra handle' place kind' → handle = handle' ∧ kind = kind'
  waits : ∀ task entry, world.tasks task = some entry → entry.yielded = true →
    ∃ place connected, entry.object.req = some place ∧
      Seat world.memory.extra entry.object.handle place entry.object.kind ∧
      world.memory.extra.connecteds entry.object.handle = some connected ∧
      (entry.object.kind = .connect → connected.established = false)
  plugged : ∀ handle, (∃ connected, world.memory.extra.connecteds handle = some connected) ↔
    ∃ sock, world.memory.extra.socks handle = some sock ∧ sock.closing = false
  nodup : ∀ handle sock, world.memory.extra.socks handle = some sock → sock.writeQueue.Nodup

/-- No `connected` is destroyed while a task waits on it, and none is given to an `accept` while
it connects. -/
def Undisturbed (world : World Operation Streams) :
    Label Parameters (Nat × Bool) Outcome Action → Prop
  | .act (.destroy handle) => ∀ sock ∈ world.memory.extra.socks handle, sock.writeQueue = [] ∧
      ∀ place ∈ sock.connectReq, ∀ found ∈ world.memory.requests place, found.data = none
  | .act (.accepted handle) =>
      ∀ sock ∈ world.memory.extra.socks handle, sock.connectReq = none
  | _ => True

instance (world : World Operation Streams) :
    (label : Label Parameters (Nat × Bool) Outcome Action) → Decidable (Undisturbed world label)
  | .act (.destroy handle) => inferInstanceAs (Decidable
      (∀ sock ∈ world.memory.extra.socks handle, sock.writeQueue = [] ∧
        ∀ place ∈ sock.connectReq, ∀ found ∈ world.memory.requests place, found.data = none))
  | .act (.accepted handle) => inferInstanceAs (Decidable
      (∀ sock ∈ world.memory.extra.socks handle, sock.connectReq = none))
  | .act (.create _) | .act (.readFailed _) | .act (.sockClosed _) => isTrue trivial
  | .make _ _ | .destroy _ | .run _ _ | .cancel _ _ | .callback _ _ | .callbackEnd | .closed _ =>
      isTrue trivial

section Seats

variable {world world' : World Operation Streams} {place : Nat}

theorem seat_same {streams streams' : Streams} (same : streams'.socks = streams.socks)
    {handle : Nat} {kind : Kind} :
    Seat streams' handle place kind ↔ Seat streams handle place kind := by
  unfold Seat
  rw [same]

theorem connect_unique {streams : Streams} {handle place place' : Nat}
    (one : Seat streams handle place .connect) (other : Seat streams handle place' .connect) :
    place = place' := by
  obtain ⟨sock, there, ⟨-, own⟩ | ⟨no, -⟩⟩ := one
  · obtain ⟨sock', there', ⟨-, own'⟩ | ⟨no, -⟩⟩ := other
    · rw [there] at there'
      cases there'
      rw [own] at own'
      cases own'
      rfl
    · cases no
  · cases no

theorem seated_change (seated : Seated world) {request : Option Request}
    (requests : world'.memory.requests = Function.update world.memory.requests place request)
    (less : ∀ handle spot kind, Seat world'.memory.extra handle spot kind →
      Seat world.memory.extra handle spot kind)
    (kept : ∀ handle spot kind, spot ≠ place → Seat world.memory.extra handle spot kind →
      Seat world'.memory.extra handle spot kind)
    (here : ∀ handle kind, Seat world'.memory.extra handle place kind →
      kind = .connect ∧ request = some { data := none })
    (free : ∀ task entry, world'.tasks task = some entry → entry.yielded = true →
      world.tasks task = some entry ∧ entry.object.req ≠ some place)
    (tasks : ∀ task entry', world'.tasks task = some entry' → ∃ entry,
      world.tasks task = some entry ∧ entry'.object.kind = entry.object.kind ∧
        entry'.object.handle = entry.object.handle)
    (flags : ∀ handle connected, world.memory.extra.connecteds handle = some connected →
      ∃ connected', world'.memory.extra.connecteds handle = some connected' ∧
        (connected'.established = connected.established ∨
          Seat world.memory.extra handle place .connect))
    (plugged : ∀ handle, (∃ connected,
      world'.memory.extra.connecteds handle = some connected) ↔
        ∃ sock, world'.memory.extra.socks handle = some sock ∧ sock.closing = false)
    (nodup : ∀ handle sock, world'.memory.extra.socks handle = some sock →
      sock.writeQueue.Nodup) : Seated world' := by
  refine ⟨?held, ?apart, ?waits, plugged, nodup⟩
  case held =>
    intro handle spot kind seat
    by_cases same : spot = place
    · subst same
      obtain ⟨connects, rfl⟩ := here handle kind seat
      exact ⟨_, by rw [requests, Function.update_self], rfl, fun _ => connects, by simp⟩
    · obtain ⟨found, there, pending, silent, named⟩ := seated.held handle spot kind
        (less handle spot kind seat)
      refine ⟨found, by rw [requests, Function.update_of_ne same, there], pending, silent, ?_⟩
      intro task names entry' known
      obtain ⟨entry, before, kinds, handles⟩ := tasks task entry' known
      rw [kinds, handles]
      exact named task names entry before
  case apart =>
    intro handle spot kind handle' kind' one other
    exact seated.apart _ _ _ _ _ (less _ _ _ one) (less _ _ _ other)
  case waits =>
    intro task entry known still
    obtain ⟨before, elsewhere⟩ := free task entry known still
    obtain ⟨spot, connected, own, seat, there, fresh⟩ := seated.waits task entry before still
    have away : spot ≠ place := by
      rintro rfl
      exact elsewhere own
    obtain ⟨connected', after, same | taken⟩ := flags _ connected there
    · exact ⟨spot, connected', own, kept _ _ _ away seat, after, fun connects => by
        rw [same, fresh connects]⟩
    · refine ⟨spot, connected', own, kept _ _ _ away seat, after, fun connects => ?_⟩
      rw [connects] at seat
      exact absurd (connect_unique seat taken) away

theorem seated_idle (linked : Linked streaming world) (seated : Seated world) {task : Nat}
    (idle : ∀ entry, world.tasks task = some entry → entry.yielded = false)
    (tasks : ∀ other, other ≠ task → world'.tasks other = world.tasks other)
    (left : ∀ entry, world'.tasks task = some entry → entry.yielded = false)
    (memory : world'.memory = world.memory) : Seated world' := by
  refine ⟨?held, ?apart, ?waits, ?plugged, ?nodup⟩
  case held =>
    intro handle spot kind seat
    rw [memory] at seat ⊢
    obtain ⟨found, there, pending, silent, named⟩ := seated.held handle spot kind seat
    refine ⟨found, there, pending, silent, fun owner names entry known => ?_⟩
    have whole : found = { data := some owner } := by
      cases found
      simp_all
    obtain ⟨before, known', still, -⟩ := linked.told spot owner (whole ▸ there)
    have away : owner ≠ task := by
      rintro rfl
      rw [idle before known'] at still
      cases still
    rw [tasks owner away] at known
    exact named owner names entry known
  case apart =>
    rw [memory]
    exact seated.apart
  case waits =>
    intro other entry known still
    have away : other ≠ task := by
      rintro rfl
      rw [left entry known] at still
      cases still
    rw [tasks other away] at known
    rw [memory]
    exact seated.waits other entry known still
  case plugged =>
    rw [memory]
    exact seated.plugged
  case nodup =>
    rw [memory]
    exact seated.nodup

theorem seat_putSock {streams : Streams} {handle handle' : Nat} {sock : Sock} {kind : Kind} :
    Seat (streams.putSock handle (some sock)) handle' place kind ↔
      (handle' = handle ∧ (kind = .connect ∧ sock.connectReq = some place ∨
        kind = .send ∧ place ∈ sock.writeQueue)) ∨
      (handle' ≠ handle ∧ Seat streams handle' place kind) := by
  unfold Seat Streams.putSock
  by_cases same : handle' = handle
  · subst same
    simp [Function.update_self]
  · simp [same]

theorem seated_begins (linked : Linked streaming world) (seated : Seated world) {task : Nat}
    {entry' : Entry Operation} {connected : Connected} {sock sock' : Sock}
    (idle : ∀ entry, world.tasks task = some entry → entry.yielded = false)
    (tasks : world'.tasks = Function.update world.tasks task (some entry'))
    (own : entry'.object.req = some place) (free : world.memory.requests place = none)
    (requests : world'.memory.requests =
      Function.update world.memory.requests place (some { data := some task }))
    (there : world.memory.extra.connecteds entry'.object.handle = some connected)
    (socket : world.memory.extra.socks entry'.object.handle = some sock)
    (extra : world'.memory.extra =
      world.memory.extra.putSock entry'.object.handle (some sock'))
    (closing : sock'.closing = sock.closing) (nodup : sock'.writeQueue.Nodup)
    (added : ∀ spot kind, (kind = .connect ∧ sock'.connectReq = some spot ∨
        kind = .send ∧ spot ∈ sock'.writeQueue) ↔
      (spot = place ∧ kind = entry'.object.kind) ∨
        Seat world.memory.extra entry'.object.handle spot kind)
    (fresh : entry'.object.kind = .connect → connected.established = false) :
    Seated world' := by
  have seats (handle spot : Nat) (kind : Kind) : Seat world'.memory.extra handle spot kind ↔
      (handle = entry'.object.handle ∧ spot = place ∧ kind = entry'.object.kind) ∨
        Seat world.memory.extra handle spot kind := by
    rw [extra, seat_putSock]
    by_cases same : handle = entry'.object.handle
    · subst same
      simp [added]
    · simp [same]
  have away {handle spot : Nat} {kind : Kind} (seat : Seat world.memory.extra handle spot kind) :
      spot ≠ place := by
    rintro rfl
    obtain ⟨found, held, -⟩ := seated.held _ _ _ seat
    rw [free] at held
    cases held
  refine ⟨?held, ?apart, ?waits, ?plugged, ?nodup⟩
  case held =>
    intro handle spot kind seat
    rw [requests]
    rcases (seats handle spot kind).mp seat with ⟨rfl, rfl, rfl⟩ | old
    · refine ⟨_, Function.update_self .., rfl, by simp, ?_⟩
      intro owner names entry known
      cases names
      rw [tasks, Function.update_self] at known
      cases known
      exact ⟨rfl, rfl⟩
    · obtain ⟨found, held, pending, silent, named⟩ := seated.held handle spot kind old
      refine ⟨found, by rw [Function.update_of_ne (away old), held], pending, silent, ?_⟩
      intro owner names entry known
      have whole : found = { data := some owner } := by
        cases found
        simp_all
      obtain ⟨before, known', still, -⟩ := linked.told spot owner (whole ▸ held)
      have other : owner ≠ task := by
        rintro rfl
        rw [idle before known'] at still
        cases still
      rw [tasks, Function.update_of_ne other] at known
      exact named owner names entry known
  case apart =>
    intro handle spot kind handle' kind' one other
    rcases (seats _ _ _).mp one with ⟨rfl, rfl, rfl⟩ | old
    · rcases (seats _ _ _).mp other with ⟨rfl, -, rfl⟩ | older
      · exact ⟨rfl, rfl⟩
      · exact absurd rfl (away older)
    · rcases (seats _ _ _).mp other with ⟨-, rfl, -⟩ | older
      · exact absurd rfl (away old)
      · exact seated.apart _ _ _ _ _ old older
  case waits =>
    intro other entry known still
    rw [tasks] at known
    have connecteds : world'.memory.extra.connecteds = world.memory.extra.connecteds := by
      rw [extra]
      rfl
    rw [connecteds]
    by_cases same : other = task
    · rw [same, Function.update_self] at known
      cases known
      exact ⟨place, connected, own, (seats _ _ _).mpr (Or.inl ⟨rfl, rfl, rfl⟩), there, fresh⟩
    · rw [Function.update_of_ne same] at known
      obtain ⟨spot, found, asks, seat, rest⟩ := seated.waits other entry known still
      exact ⟨spot, found, asks, (seats _ _ _).mpr (Or.inr seat), rest⟩
  case plugged =>
    intro handle
    rw [extra]
    refine (seated.plugged handle).trans ?_
    unfold Streams.putSock
    by_cases same : handle = entry'.object.handle
    · subst same
      simp [Function.update_self, socket, closing]
    · simp [same]
  case nodup =>
    intro handle other found
    rw [extra] at found
    by_cases same : handle = entry'.object.handle
    · subst same
      cases (Function.update_self ..).symm.trans found
      exact nodup
    · exact seated.nodup handle other ((Function.update_of_ne same ..).symm.trans found)

theorem seated_run (linked : Linked streaming world) (seated : Seated world) {task : Nat}
    {input : Nat × Bool} (taken : world.run streaming task input = some world') :
    Seated world' := by
  obtain ⟨place, started⟩ := input
  obtain ⟨entry, object, memory, yields, known, ready, runs, rfl⟩ := ran_cases taken
  obtain ⟨rfl, free, rfl, requests, connected, sock, there, -, socket, cases⟩ := run_cases runs
  have idle (found : Entry Operation) (shown : world.tasks task = some found) :
      found.yielded = false := by
    by_contra still
    obtain ⟨status, -⟩ := linked.waits task found shown (by simpa using still)
    rw [known] at shown
    cases shown
    rw [ready] at status
    cases status
  have queue := seated.nodup _ _ socket
  have old {handle spot : Nat} {kind : Kind} (seat : Seat world.memory.extra handle spot kind) :
      spot ≠ place := by
    rintro rfl
    obtain ⟨found, held, -⟩ := seated.held _ _ _ seat
    rw [free] at held
    cases held
  rcases cases with ⟨connects, none, fresh, extra⟩ | ⟨sends, extra⟩
  · refine seated_begins linked seated idle rfl rfl free requests there socket extra rfl queue
      ?_ fun _ => fresh
    intro spot kind
    simp only [Seat, socket, Option.some.injEq, exists_eq_left', connects, none]
    constructor
    · rintro (⟨rfl, rfl⟩ | ⟨rfl, member⟩)
      · exact Or.inl ⟨rfl, rfl⟩
      · exact Or.inr (Or.inr ⟨rfl, member⟩)
    · rintro (⟨rfl, rfl⟩ | ⟨rfl, no⟩ | ⟨rfl, member⟩)
      · exact Or.inl ⟨rfl, rfl⟩
      · cases no
      · exact Or.inr ⟨rfl, member⟩
  · refine seated_begins linked seated idle rfl rfl free requests there socket extra rfl ?_
      ?_ fun connects => ?_
    · refine List.nodup_append.mpr ⟨queue, by simp, ?_⟩
      intro spot member other single
      rw [List.mem_singleton.mp single]
      exact old ⟨sock, socket, Or.inr ⟨rfl, member⟩⟩
    · intro spot kind
      simp only [Seat, socket, Option.some.injEq, exists_eq_left', sends, List.mem_append,
        List.mem_singleton]
      constructor
      · rintro (⟨rfl, own⟩ | ⟨rfl, member | rfl⟩)
        · exact Or.inr (Or.inl ⟨rfl, own⟩)
        · exact Or.inr (Or.inr ⟨rfl, member⟩)
        · exact Or.inl ⟨rfl, rfl⟩
      · rintro (⟨rfl, rfl⟩ | ⟨rfl, own⟩ | ⟨rfl, member⟩)
        · exact Or.inr ⟨rfl, Or.inr rfl⟩
        · exact Or.inl ⟨rfl, own⟩
        · exact Or.inr ⟨rfl, Or.inl member⟩
    · rw [sends] at connects
      cases connects

theorem seated_cancel (linked : Linked streaming world) (seated : Seated world) {task : Nat}
    {direct : Bool} (taken : world.cancel streaming task direct = some world') :
    Seated world' := by
  obtain ⟨entry, object, memory, known, still, cuts, rfl⟩ := PrimitiveLinks.cancel_cases taken
  obtain ⟨spot, request, connected, connects, own, held, rfl, requests, there, extra⟩ :=
    cancel_cases cuts
  obtain ⟨-, -, -, place, asks, names⟩ := linked.waits task entry known still
  cases own.symm.trans asks
  rw [held] at names
  cases names
  have socks : memory.extra.socks = world.memory.extra.socks := by
    rw [extra]
    rfl
  have flags (handle : Nat) (found : Connected)
      (before : world.memory.extra.connecteds handle = some found) :
      ∃ after, memory.extra.connecteds handle = some after ∧
        after.established = found.established := by
    rw [extra]
    by_cases same : handle = entry.object.handle
    · subst same
      rw [there] at before
      cases before
      exact ⟨_, Function.update_self .., rfl⟩
    · exact ⟨found, (Function.update_of_ne same ..).trans before, rfl⟩
  refine seated_change seated requests (fun handle spot kind => (seat_same socks).mp)
    (fun handle spot kind _ => (seat_same socks).mpr) ?here ?free ?tasks ?flags ?plugged ?nodup
  case here =>
    intro handle kind seat
    obtain ⟨found, held', -, -, named⟩ := seated.held _ _ _ ((seat_same socks).mp seat)
    rw [held] at held'
    cases held'
    obtain ⟨kinds, -⟩ := named task rfl entry known
    exact ⟨kinds ▸ connects, rfl⟩
  case free =>
    intro other found shown waits
    by_cases same : other = task
    · subst same
      cases (Function.update_self ..).symm.trans shown
      cases waits
    · have before := (Function.update_of_ne same ..).symm.trans shown
      refine ⟨before, fun own' => ?_⟩
      obtain ⟨-, -, -, place', asks', names⟩ := linked.waits other found before waits
      cases own'.symm.trans asks'
      rw [held] at names
      cases names
      exact same rfl
  case tasks =>
    intro other found shown
    by_cases same : other = task
    · subst same
      cases (Function.update_self ..).symm.trans shown
      exact ⟨entry, known, rfl, rfl⟩
    · exact ⟨found, (Function.update_of_ne same ..).symm.trans shown, rfl, rfl⟩
  case flags =>
    intro handle found before
    obtain ⟨after, now, same⟩ := flags handle found before
    exact ⟨after, now, Or.inl same⟩
  case plugged =>
    intro handle
    change (∃ connected, memory.extra.connecteds handle = some connected) ↔
      ∃ sock, memory.extra.socks handle = some sock ∧ sock.closing = false
    rw [socks, ← seated.plugged handle, extra]
    unfold Streams.putConnected
    by_cases same : handle = entry.object.handle
    · subst same
      simp [Function.update_self, there]
    · simp [Function.update_of_ne same]
  case nodup =>
    intro handle sock found
    exact seated.nodup handle sock (socks ▸ found)

theorem takeOff_seats (seated : Seated world) {handle : Nat} {kind : Kind} {sock left : Sock}
    (socket : world.memory.extra.socks handle = some sock)
    (taken : Operation.takeOff sock place kind = some left) :
    Seat world.memory.extra handle place kind ∧ ∀ handle' spot kind',
      Seat (world.memory.extra.putSock handle (some left)) handle' spot kind' ↔
        Seat world.memory.extra handle' spot kind' ∧ spot ≠ place := by
  obtain ⟨-, cases⟩ := takeOff_cases taken
  have own : Seat world.memory.extra handle place kind := by
    rcases cases with ⟨rfl, asks, -⟩ | ⟨rfl, -, queue⟩
    · exact ⟨sock, socket, Or.inl ⟨rfl, asks⟩⟩
    · exact ⟨sock, socket, Or.inr ⟨rfl, by simp [queue]⟩⟩
  refine ⟨own, fun handle' spot kind' => ?_⟩
  have only (same : handle' = handle) : (kind' = .connect ∧ left.connectReq = some spot ∨
      kind' = .send ∧ spot ∈ left.writeQueue) ↔
        Seat world.memory.extra handle' spot kind' ∧ spot ≠ place := by
    subst same
    have here (other : Kind) (seat : Seat world.memory.extra handle' place other) : kind = other :=
      (seated.apart _ _ _ _ _ own seat).2
    have nodup := seated.nodup _ _ socket
    rcases cases with ⟨rfl, asks, gone, queue⟩ | ⟨rfl, asks, queue⟩
    · simp only [gone, queue, Seat, socket, Option.some.injEq, exists_eq_left']
      constructor
      · rintro (⟨-, no⟩ | ⟨rfl, member⟩)
        · cases no
        · refine ⟨Or.inr ⟨rfl, member⟩, fun same => ?_⟩
          cases here .send ⟨sock, socket, Or.inr ⟨rfl, same ▸ member⟩⟩
      · rintro ⟨⟨rfl, asks'⟩ | ⟨rfl, member⟩, away⟩
        · rw [asks] at asks'
          cases asks'
          exact absurd rfl away
        · exact Or.inr ⟨rfl, member⟩
    · rw [queue] at nodup
      simp only [asks, Seat, socket, Option.some.injEq, exists_eq_left', queue, List.mem_cons]
      constructor
      · rintro (⟨rfl, asks'⟩ | ⟨rfl, member⟩)
        · refine ⟨Or.inl ⟨rfl, asks'⟩, fun same => ?_⟩
          cases here .connect ⟨sock, socket, Or.inl ⟨rfl, same ▸ asks'⟩⟩
        · refine ⟨Or.inr ⟨rfl, Or.inr member⟩, ?_⟩
          rintro rfl
          exact (List.nodup_cons.mp nodup).1 member
      · rintro ⟨⟨rfl, asks'⟩ | ⟨rfl, rfl | member⟩, away⟩
        · exact Or.inl ⟨rfl, asks'⟩
        · exact absurd rfl away
        · exact Or.inr ⟨rfl, member⟩
  rw [seat_putSock]
  by_cases same : handle' = handle
  · simp only [same, ne_eq, not_true_eq_false, false_and, or_false, true_and]
    rw [← same]
    exact only same
  · simp only [same, ne_eq, not_false_eq_true, false_and, false_or, true_and]
    constructor
    · intro seat
      refine ⟨seat, ?_⟩
      rintro rfl
      exact same (seated.apart _ _ _ _ _ own seat).1.symm
    · exact And.left

/-- A task that waits has its socket open, so it is not dropped. -/
theorem waiting_open (linked : Linked streaming world) (seated : Seated world) {handle : Nat}
    {kind : Kind} {sock : Sock} (seat : Seat world.memory.extra handle place kind)
    (socket : world.memory.extra.socks handle = some sock) {task : Nat}
    (named : world.memory.requests place = some { data := some task }) :
    sock.closing = false ∧ ∃ entry connected, world.tasks task = some entry ∧
      entry.yielded = true ∧ entry.object.req = some place ∧ entry.object.kind = kind ∧
      entry.object.handle = handle ∧ world.memory.extra.connecteds handle = some connected ∧
      (kind = .connect → connected.established = false) := by
  obtain ⟨entry, known, still, own⟩ := linked.told place task named
  obtain ⟨spot, connected, asks, there, alive, fresh⟩ := seated.waits task entry known still
  change entry.object.req = some place at own
  cases own.symm.trans asks
  obtain ⟨rfl, rfl⟩ := seated.apart _ _ _ _ _ seat there
  obtain ⟨sock', socket', opened⟩ := (seated.plugged _).mp ⟨connected, alive⟩
  rw [socket] at socket'
  cases socket'
  exact ⟨opened, entry, connected, known, still, asks, rfl, rfl, alive, fresh⟩

theorem seated_taken (seated : Seated world) {handle : Nat} {kind : Kind} {sock left : Sock}
    (socket : world.memory.extra.socks handle = some sock)
    (takes : Operation.takeOff sock place kind = some left) {request : Option Request}
    (requests : world'.memory.requests = Function.update world.memory.requests place request)
    (socks : world'.memory.extra.socks =
      (world.memory.extra.putSock handle (some left)).socks)
    (free : ∀ task entry, world'.tasks task = some entry → entry.yielded = true →
      world.tasks task = some entry ∧ entry.object.req ≠ some place)
    (tasks : ∀ task entry', world'.tasks task = some entry' → ∃ entry,
      world.tasks task = some entry ∧ entry'.object.kind = entry.object.kind ∧
        entry'.object.handle = entry.object.handle)
    (flags : ∀ handle connected, world.memory.extra.connecteds handle = some connected →
      ∃ connected', world'.memory.extra.connecteds handle = some connected' ∧
        (connected'.established = connected.established ∨
          Seat world.memory.extra handle place .connect))
    (alive : ∀ handle, world.memory.extra.connecteds handle = none →
      world'.memory.extra.connecteds handle = none) : Seated world' := by
  obtain ⟨seat, seats⟩ := takeOff_seats seated socket takes
  obtain ⟨closing, cases⟩ := takeOff_cases takes
  refine seated_change seated requests
    (fun handle spot kind now => ((seats _ _ _).mp ((seat_same socks).mp now)).1)
    (fun handle spot kind away now => (seat_same socks).mpr ((seats _ _ _).mpr ⟨now, away⟩))
    (fun handle kind now => absurd rfl ((seats _ _ _).mp ((seat_same socks).mp now)).2)
    free tasks flags (fun other => ?_) (fun other found shown => ?_)
  · have same : (∃ connected, world'.memory.extra.connecteds other = some connected) ↔
        ∃ connected, world.memory.extra.connecteds other = some connected := by
      cases before : world.memory.extra.connecteds other with
      | none => simp [alive other before]
      | some connected =>
          obtain ⟨after, now, -⟩ := flags other connected before
          simp [now]
    rw [same, seated.plugged other, socks]
    unfold Streams.putSock
    by_cases own : other = handle
    · subst own
      simp [Function.update_self, socket, closing]
    · simp [own]
  · rw [socks] at shown
    by_cases own : other = handle
    · subst own
      cases (Function.update_self ..).symm.trans shown
      have nodup := seated.nodup _ _ socket
      rcases cases with ⟨-, -, -, queue⟩ | ⟨-, -, queue⟩
      · rw [queue]
        exact nodup
      · rw [queue] at nodup
        exact (List.nodup_cons.mp nodup).2
    · exact seated.nodup other found ((Function.update_of_ne own ..).symm.trans shown)

theorem seated_callback (linked : Linked streaming world) (seated : Seated world)
    {outcome : Outcome} (taken : world.callback streaming place outcome = some world') :
    Seated world' ∧ (dropped outcome = true →
      ∀ found ∈ world.memory.requests place, found.data = none) := by
  obtain ⟨quiet, ⟨memory, behind, called, ends, rfl⟩ |
    ⟨memory, owner, entry, object, after, behind, called, known, still, backs, rfl⟩⟩ :=
      callback_cases linked taken
  · -- nobody waits for the answer
    obtain ⟨sock, request, left, socket, there, pending, closes, takes, requests, cases⟩ :=
      streamCb_cases called
    obtain ⟨-, extra, unheard⟩ | ⟨_, _, _, -, -, -, no, -⟩ := cases
    · have silent : request.data = none := by
        cases names : request.data with
        | none => rfl
        | some task =>
            have whole : request = { data := some task } := by
              cases request
              simp_all
            obtain ⟨seat, -⟩ := takeOff_seats seated socket takes
            obtain ⟨opened, -⟩ := waiting_open linked seated seat socket (whole ▸ there)
            rcases unheard with canceled | silent
            · rw [closes canceled] at opened
              cases opened
            · rw [names] at silent
              cases silent
      obtain rfl := free_cases ends
      have changed : (memory.put place none).requests =
          Function.update world.memory.requests place none := by
        change Function.update memory.requests place none = _
        rw [requests, Function.update_idem]
      have connecteds : memory.extra.connecteds = world.memory.extra.connecteds := by
        rw [extra]
        rfl
      refine ⟨seated_taken seated socket takes changed (congrArg Streams.socks extra)
        (fun task found shown waits => ⟨shown, fun own => ?_⟩)
        (fun task found shown => ⟨found, shown, rfl, rfl⟩)
        (fun handle found before => ⟨found, connecteds ▸ before, Or.inl rfl⟩)
        (fun handle before => connecteds ▸ before), fun _ found member => ?_⟩
      · obtain ⟨-, -, -, place', asks, names⟩ := linked.waits task found shown waits
        cases own.symm.trans asks
        rw [there] at names
        cases names
        cases silent
      · rw [there] at member
        cases member
        exact silent
    · cases no
  · cases backs
    obtain ⟨sock, request, left, socket, there, pending, -, takes, requests, cases⟩ :=
      streamCb_cases called
    obtain ⟨no, -⟩ | ⟨task, waiting, _, names, shown, told, same, answered⟩ := cases
    · cases no
    · cases same
      have whole : request = { data := some owner } := by
        cases request
        simp_all
      rw [World.objects, known] at shown
      cases shown
      obtain ⟨seat, -⟩ := takeOff_seats seated socket takes
      obtain ⟨-, entry', connected, known', -, own, kinds, handles, alive, -⟩ :=
        waiting_open linked seated seat socket (whole ▸ there)
      rw [known] at known'
      cases known'
      obtain ⟨kind, handle, -, written⟩ := answer_cases answered
      refine ⟨seated_taken seated socket takes requests ?socks ?free ?tasks ?flags ?alive, ?drops⟩
      case socks =>
        change memory.extra.socks = _
        rcases written with ⟨-, -, -, _, -, -, extra⟩ | ⟨-, -, -, extra⟩ | ⟨-, -, _, -, extra⟩
        · rw [extra]
          rfl
        · rw [extra]
        · rw [extra]
          rfl
      case free =>
        intro other found shown waits
        by_cases same : other = owner
        · subst same
          cases (Function.update_self ..).symm.trans shown
          cases waits
        · have before := (Function.update_of_ne same ..).symm.trans shown
          refine ⟨before, fun own' => ?_⟩
          obtain ⟨-, -, -, place', asks', names'⟩ := linked.waits other found before waits
          cases own'.symm.trans asks'
          rw [there, whole] at names'
          cases names'
          exact same rfl
      case tasks =>
        intro other found shown
        by_cases same : other = owner
        · subst same
          cases (Function.update_self ..).symm.trans shown
          exact ⟨entry, known, kind, handle⟩
        · exact ⟨found, (Function.update_of_ne same ..).symm.trans shown, rfl, rfl⟩
      case flags =>
        intro other found before
        change ∃ after, memory.extra.connecteds other = some after ∧ _
        by_cases same : other = entry.object.handle
        · subst same
          rcases written with ⟨-, -, connects, flags, held, -, extra⟩ | ⟨-, -, -, extra⟩ |
            ⟨-, -, flags, held, extra⟩
          · refine ⟨{ flags with established := true }, ?_, Or.inr ?_⟩
            · rw [extra]
              exact Function.update_self ..
            · rw [handles, ← connects, kinds]
              exact seat
          · exact ⟨found, by rw [extra]; exact before, Or.inl rfl⟩
          · refine ⟨{ flags with broken := true }, ?_, Or.inl ?_⟩
            · rw [extra]
              exact Function.update_self ..
            · have same : flags = found := Option.some.inj (held.symm.trans before)
              rw [same]
        · refine ⟨found, ?_, Or.inl rfl⟩
          rcases written with ⟨-, -, -, _, -, -, extra⟩ | ⟨-, -, -, extra⟩ | ⟨-, -, _, -, extra⟩
          · rw [extra]
            exact (Function.update_of_ne same ..).trans before
          · rw [extra]
            exact before
          · rw [extra]
            exact (Function.update_of_ne same ..).trans before
      case alive =>
        intro other gone
        have away : other ≠ entry.object.handle := by
          rintro rfl
          rw [handles, alive] at gone
          cases gone
        change memory.extra.connecteds other = none
        rcases written with ⟨-, -, -, _, -, -, extra⟩ | ⟨-, -, -, extra⟩ | ⟨-, -, _, -, extra⟩
        · rw [extra]
          exact (Function.update_of_ne away ..).trans gone
        · rw [extra]
          exact gone
        · rw [extra]
          exact (Function.update_of_ne away ..).trans gone
      case drops =>
        intro drops
        exact absurd (by simpa [dropped] using drops) told

theorem seated_freed (seated : Seated world) {found : Request}
    (there : world.memory.requests place = some found) (past : found.phase ≠ .pending)
    (tasks : world'.tasks = world.tasks)
    (requests : world'.memory.requests = Function.update world.memory.requests place none)
    (extra : world'.memory.extra = world.memory.extra) : Seated world' := by
  have away {handle spot : Nat} {kind : Kind} (seat : Seat world.memory.extra handle spot kind) :
      spot ≠ place := by
    rintro rfl
    obtain ⟨request, held, pending, -⟩ := seated.held _ _ _ seat
    rw [there] at held
    cases held
    exact past pending
  refine ⟨?held, ?apart, ?waits, ?plugged, ?nodup⟩
  case held =>
    intro handle spot kind seat
    rw [extra] at seat
    rw [requests, Function.update_of_ne (away seat), tasks]
    exact seated.held handle spot kind seat
  case apart =>
    rw [extra]
    exact seated.apart
  case waits =>
    rw [tasks, extra]
    exact seated.waits
  case plugged =>
    rw [extra]
    exact seated.plugged
  case nodup =>
    rw [extra]
    exact seated.nodup

theorem seated_flags (seated : Seated world) {handle : Nat} {connected connected' : Connected}
    (there : world.memory.extra.connecteds handle = some connected)
    (quiet : connected'.established = connected.established ∨
      ∀ place, ¬Seat world.memory.extra handle place .connect)
    (tasks : world'.tasks = world.tasks)
    (requests : world'.memory.requests = world.memory.requests)
    (extra : world'.memory.extra = world.memory.extra.putConnected handle (some connected')) :
    Seated world' := by
  have socks : world'.memory.extra.socks = world.memory.extra.socks := by
    rw [extra]
    rfl
  refine ⟨?held, ?apart, ?waits, ?plugged, ?nodup⟩
  case held =>
    intro other spot kind seat
    rw [requests, tasks]
    exact seated.held other spot kind ((seat_same socks).mp seat)
  case apart =>
    intro one spot kind other kind' first second
    exact seated.apart _ _ _ _ _ ((seat_same socks).mp first) ((seat_same socks).mp second)
  case waits =>
    intro task entry known still
    rw [tasks] at known
    obtain ⟨spot, found, own, seat, alive, fresh⟩ := seated.waits task entry known still
    by_cases same : entry.object.handle = handle
    · refine ⟨spot, connected', own, (seat_same socks).mpr seat, ?_, fun connects => ?_⟩
      · rw [extra, same]
        exact Function.update_self ..
      · rcases quiet with kept | nobody
        · rw [same, there] at alive
          cases alive
          rw [kept, fresh connects]
        · rw [connects, same] at seat
          exact absurd seat (nobody spot)
    · refine ⟨spot, found, own, (seat_same socks).mpr seat, ?_, fresh⟩
      rw [extra]
      exact (Function.update_of_ne same ..).trans alive
  case plugged =>
    intro other
    rw [socks, ← seated.plugged other, extra]
    unfold Streams.putConnected
    by_cases same : other = handle
    · subst same
      simp [Function.update_self, there]
    · simp [Function.update_of_ne same]
  case nodup =>
    rw [socks]
    exact seated.nodup

theorem seated_act (linked : Linked streaming world) (seated : Seated world) {action : Action}
    (undisturbed : Undisturbed world (.act action)) {streams : Streams}
    (taken : world.memory.extra.act action = some streams) :
    Seated { world with memory := { world.memory with extra := streams } } := by
  cases action with
  | create handle =>
      simp only [Streams.act] at taken
      split at taken
      · cases taken
      · rename_i free
        cases taken
        have none : world.memory.extra.connecteds handle = none := by
          cases there : world.memory.extra.connecteds handle with
          | none => rfl
          | some connected =>
              obtain ⟨sock, found, -⟩ := (seated.plugged handle).mp ⟨connected, there⟩
              rw [free] at found
              cases found
        have seats (other spot : Nat) (kind : Kind) :
            Seat ((world.memory.extra.putConnected handle (some {})).putSock handle (some {}))
              other spot kind ↔ Seat world.memory.extra other spot kind := by
          rw [seat_putSock]
          by_cases same : other = handle
          · subst same
            simp [Seat, free]
          · simp only [same, false_and, ne_eq, not_false_eq_true, true_and, false_or]
            exact seat_same rfl
        refine ⟨fun other spot kind seat => seated.held _ _ _ ((seats _ _ _).mp seat),
          fun _ _ _ _ _ one two => seated.apart _ _ _ _ _ ((seats _ _ _).mp one)
            ((seats _ _ _).mp two), fun task entry known still => ?_, fun other => ?_,
          fun other sock found => ?_⟩
        · obtain ⟨spot, found, own, seat, alive, fresh⟩ := seated.waits task entry known still
          have away : entry.object.handle ≠ handle := by
            intro same
            rw [same, none] at alive
            cases alive
          exact ⟨spot, found, own, (seats _ _ _).mpr seat,
            (Function.update_of_ne away ..).trans alive, fresh⟩
        · by_cases same : other = handle
          · subst same
            simp [Streams.putConnected, Streams.putSock]
          · simpa [Streams.putConnected, Streams.putSock, Function.update_of_ne same] using
              seated.plugged other
        · by_cases same : other = handle
          · subst same
            cases (Function.update_self ..).symm.trans found
            exact List.nodup_nil
          · exact seated.nodup other sock ((Function.update_of_ne same ..).symm.trans found)
  | destroy handle =>
      simp only [Streams.act] at taken
      split at taken
      · rename_i connected sock there socket
        cases taken
        obtain ⟨queue, silent⟩ := undisturbed sock socket
        have seats (other spot : Nat) (kind : Kind) :
            Seat ((world.memory.extra.putConnected handle none).putSock handle
              (some { sock with closing := true })) other spot kind ↔
                Seat world.memory.extra other spot kind := by
          rw [seat_putSock]
          by_cases same : other = handle
          · subst same
            simp [Seat, socket]
          · simp only [same, false_and, ne_eq, not_false_eq_true, true_and, false_or]
            exact seat_same rfl
        refine ⟨fun other spot kind seat => seated.held _ _ _ ((seats _ _ _).mp seat),
          fun _ _ _ _ _ one two => seated.apart _ _ _ _ _ ((seats _ _ _).mp one)
            ((seats _ _ _).mp two), fun task entry known still => ?_, fun other => ?_,
          fun other sock' found => ?_⟩
        · obtain ⟨spot, found, own, seat, alive, fresh⟩ := seated.waits task entry known still
          -- nobody waits at the socket that is closed
          have away : entry.object.handle ≠ handle := by
            intro same
            rw [same] at seat
            obtain ⟨-, -, -, place', asks, names⟩ := linked.waits task entry known still
            cases own.symm.trans asks
            obtain ⟨sock', socket', ⟨-, connects⟩ | ⟨-, member⟩⟩ := seat
            · rw [socket] at socket'
              cases socket'
              have gone := silent spot connects _ names
              cases gone
            · rw [socket] at socket'
              cases socket'
              rw [queue] at member
              cases member
          exact ⟨spot, found, own, (seats _ _ _).mpr seat,
            (Function.update_of_ne away ..).trans alive, fresh⟩
        · by_cases same : other = handle
          · subst same
            simp [Streams.putConnected, Streams.putSock]
          · simpa [Streams.putConnected, Streams.putSock, Function.update_of_ne same] using
              seated.plugged other
        · by_cases same : other = handle
          · subst same
            cases (Function.update_self ..).symm.trans found
            exact seated.nodup other sock socket
          · exact seated.nodup other sock' ((Function.update_of_ne same ..).symm.trans found)
      · cases taken
  | accepted handle =>
      obtain ⟨connected, there, -, rfl⟩ := establish_cases taken
      refine seated_flags seated there (Or.inr fun spot seat => ?_) rfl rfl rfl
      obtain ⟨sock, socket, ⟨-, connects⟩ | ⟨no, -⟩⟩ := seat
      · rw [undisturbed sock socket] at connects
        cases connects
      · cases no
  | readFailed handle =>
      obtain ⟨connected, there, rfl⟩ := breakOff_cases taken
      have same : ({ connected with broken := true } : Connected).established =
          connected.established := rfl
      exact seated_flags seated there (Or.inl same) rfl rfl rfl
  | sockClosed handle =>
      simp only [Streams.act] at taken
      split at taken
      · cases taken
      · rename_i sock socket
        split at taken
        · rename_i done
          cases taken
          obtain ⟨closing, unconnected, queue⟩ := done
          have seats (other spot : Nat) (kind : Kind) :
              Seat (world.memory.extra.putSock handle none) other spot kind ↔
                Seat world.memory.extra other spot kind := by
            unfold Seat Streams.putSock
            by_cases same : other = handle
            · subst same
              simp [socket, unconnected, queue]
            · simp [Function.update_of_ne same]
          refine ⟨fun other spot kind seat => seated.held _ _ _ ((seats _ _ _).mp seat),
            fun _ _ _ _ _ one two => seated.apart _ _ _ _ _ ((seats _ _ _).mp one)
              ((seats _ _ _).mp two), fun task entry known still => ?_, fun other => ?_,
            fun other sock' found => ?_⟩
          · obtain ⟨spot, found, own, seat, alive, fresh⟩ := seated.waits task entry known still
            exact ⟨spot, found, own, (seats _ _ _).mpr seat, alive, fresh⟩
          · refine (seated.plugged other).trans ?_
            unfold Streams.putSock
            by_cases same : other = handle
            · subst same
              simp [socket, closing]
            · simp [Function.update_of_ne same]
          · by_cases same : other = handle
            · subst same
              cases (Function.update_self ..).symm.trans found
            · exact seated.nodup other sock' ((Function.update_of_ne same ..).symm.trans found)
        · cases taken

/-- The step lemma: no answer is dropped, and links and seats are kept. -/
theorem streams_step (both : Linked streaming world ∧ Seated world)
    {label : Label Parameters (Nat × Bool) Outcome Action} (undisturbed : Undisturbed world label)
    (taken : step streaming world label = some world') :
    Heard dropped world label ∧ Linked streaming world' ∧ Seated world' := by
  obtain ⟨linked, seated⟩ := both
  have heard : Heard dropped world label := by
    cases label with
    | callback place outcome => exact (seated_callback linked seated taken).2
    | _ => trivial
  refine ⟨heard, linked_step streaming_lawful linked heard taken, ?_⟩
  cases label with
  | make task parameters =>
      simp only [step] at taken
      split at taken
      · cases taken
      · rename_i absent
        obtain ⟨object, -, rfl⟩ := Option.map_eq_some_iff.mp taken
        refine seated_idle linked seated (fun entry known => ?_)
          (fun other apart => Function.update_of_ne apart ..) (fun entry known => ?_) rfl
        · rw [absent] at known
          cases known
        · cases (Function.update_self ..).symm.trans known
          rfl
  | destroy task =>
      simp only [step] at taken
      split at taken
      · cases taken
      · rename_i entry known
        split at taken
        · cases taken
        · rename_i idle
          cases taken
          refine seated_idle linked seated (fun found there => ?_)
            (fun other apart => Function.update_of_ne apart ..) (fun found there => ?_) rfl
          · rw [known] at there
            cases there
            simpa using idle
          · cases (Function.update_self ..).symm.trans there
  | run task input => exact seated_run linked seated taken
  | cancel task direct => exact seated_cancel linked seated taken
  | callback place outcome => exact (seated_callback linked seated taken).1
  | callbackEnd =>
      simp only [step, World.callbackEnd] at taken
      split at taken
      · cases taken
      · rename_i place busy
        obtain ⟨behind, ends, rfl⟩ := Option.map_eq_some_iff.mp taken
        obtain ⟨found, there, past⟩ := linked.calling place busy
        obtain rfl := free_cases ends
        exact seated_freed seated there past rfl rfl rfl
  | closed place =>
      simp only [step, World.closed] at taken
      split at taken
      · cases taken
      · rename_i found there
        split at taken
        · rename_i free
          cases taken
          exact seated_freed seated there (by simp [free.2]) rfl rfl rfl
        · cases taken
  | act action =>
      simp only [step] at taken
      obtain ⟨memory, acts, rfl⟩ := Option.map_eq_some_iff.mp taken
      obtain ⟨streams, changed, rfl⟩ := Option.map_eq_some_iff.mp acts
      exact seated_act linked seated undisturbed changed

end Seats

section Enabled

variable {world next : World Operation Streams} {place handle task : Nat} {kind : Kind}
  {sock left : Sock} {entry : Entry Operation} {status : Status}

theorem callback_enabled (linked : Linked streaming world) (seated : Seated world)
    (socket : world.memory.extra.socks handle = some sock)
    (takes : Operation.takeOff sock place kind = some left) (idle : world.calling = none)
    (possible : status = .canceled ↔ sock.closing = true) :
    ∃ next, step streaming world (.callback place ⟨kind, handle, status⟩) = some next := by
  obtain ⟨seat, -⟩ := takeOff_seats seated socket takes
  obtain ⟨request, there, pending, silent, -⟩ := seated.held _ _ _ seat
  have opened : ¬(request.phase ≠ .pending ∨ (status = .canceled ∧ sock.closing = false) ∨
      (kind = .connect ∧ sock.closing = true ∧ status ≠ .canceled)) := by
    rintro (past | ⟨canceled, opened⟩ | ⟨-, closing, told⟩)
    · exact past pending
    · rw [possible.mp canceled] at opened
      cases opened
    · exact told (possible.mpr closing)
  have called : ∃ memory stands, streaming.callback place ⟨kind, handle, status⟩ world.objects
      world.memory = some (memory, stands) := by
    change ∃ memory stands, Operation.streamCb place ⟨kind, handle, status⟩ world.objects
      world.memory = some (memory, stands)
    unfold Operation.streamCb
    simp only [socket, there, if_neg opened, takes, Option.bind_some]
    cases names : request.data with
    | none =>
        have unheard : status = .canceled ∨ (kind = .connect ∧ none = (none : Option Nat)) :=
          Or.inr ⟨silent names, rfl⟩
        rw [if_pos unheard]
        exact ⟨_, _, rfl⟩
    | some task =>
        have whole : request = { data := some task } := by
          cases request
          simp_all
        obtain ⟨waiting, entry, connected, known, -, -, kinds, handles, alive, fresh⟩ :=
          waiting_open linked seated seat socket (whole ▸ there)
        have told : status ≠ .canceled := by
          intro canceled
          rw [possible.mp canceled] at waiting
          cases waiting
        have held : (world.memory.extra.putSock handle (some left)).connecteds handle =
          some connected := alive
        simp only [told, reduceCtorEq, and_false, or_self, if_false, Option.bind_some,
          World.objects, known, Option.map_some]
        cases status with
        | canceled => exact absurd rfl told
        | failed =>
            simp only [Operation.answer, Streams.breakOff, handles, held, Option.map_some]
            exact ⟨_, _, rfl⟩
        | ok =>
            cases kind with
            | send =>
                simp only [Operation.answer, kinds, Option.map_some]
                exact ⟨_, _, rfl⟩
            | connect =>
                simp only [Operation.answer, kinds, Streams.establish, handles, held, fresh rfl,
                  Bool.false_eq_true, if_false, Option.map_some]
                exact ⟨_, _, rfl⟩
  obtain ⟨memory, stands, called⟩ := called
  exact callback_proceeds streaming_lawful linked idle called (fun _ => free_there)
    fun object memory _ _ _ _ => ⟨(object, memory), rfl⟩

theorem cancel_enabled (linked : Linked streaming world) (seated : Seated world)
    (known : world.tasks task = some entry) (still : entry.yielded = true)
    (connects : entry.object.kind = .connect) (direct : Bool) :
    ∃ next, step streaming world (.cancel task direct) = some next := by
  obtain ⟨-, connected, -, -, alive, -⟩ := seated.waits task entry known still
  refine cancel_proceeds linked direct known still fun place own holds => ?_
  change entry.object.req = some place at own
  change ∃ result, entry.object.cancel world.memory = some result
  simp [Operation.cancel, connects, own, Streams.breakOff, alive, Memory.clearData, holds]

theorem callback_answers (linked : Linked streaming world) (seated : Seated world)
    (taken : step streaming world (.callback place ⟨kind, handle, status⟩) = some next)
    (known : world.tasks task = some entry) (still : entry.yielded = true)
    (own : entry.object.req = some place) :
    ∃ after connected, next.tasks task = some after ∧ after.yielded = false ∧
      after.resumed = 1 ∧
      next.memory.extra.connecteds entry.object.handle = some connected ∧
      ((status = .ok ∧ after.object.ret = .success ∧
          (entry.object.kind = .connect → connected.established = true)) ∨
        (status = .failed ∧ after.object.ret = .failure ∧ connected.broken = true)) := by
  obtain ⟨-, resumed, -, place', asks, named⟩ := linked.waits task entry known still
  cases own.symm.trans asks
  obtain ⟨-, ⟨memory, behind, called, ends, rfl⟩ |
    ⟨memory, owner, found, object, after, behind, called, known', still', backs, rfl⟩⟩ :=
      callback_cases linked taken
  · obtain ⟨sock, request, left, socket, there, -, closes, takes, -, cases⟩ :=
      streamCb_cases called
    obtain ⟨seat, -⟩ := takeOff_seats seated socket takes
    obtain ⟨opened, -⟩ := waiting_open linked seated seat socket named
    rw [named] at there
    cases there
    rcases cases with ⟨-, -, canceled | silent⟩ | ⟨_, _, _, -, -, -, no, -⟩
    · rw [closes canceled] at opened
      cases opened
    · cases silent
    · cases no
  · cases backs
    obtain ⟨sock, request, left, socket, there, -, -, takes, -, cases⟩ := streamCb_cases called
    obtain ⟨no, -⟩ | ⟨task', waiting, _, names, shown, told, same, answered⟩ := cases
    · cases no
    · cases same
      rw [named] at there
      cases there
      cases names
      rw [known] at known'
      cases known'
      rw [World.objects, known] at shown
      cases shown
      obtain ⟨-, connected, -, -, alive, -⟩ := seated.waits task entry known still
      obtain ⟨-, -, -, written⟩ := answer_cases answered
      rcases written with ⟨ok, success, -, flags, held, -, extra⟩ | ⟨ok, success, sends, extra⟩ |
        ⟨failed, failure, flags, held, extra⟩
      · refine ⟨_, { flags with established := true }, Function.update_self .., rfl, ?_, ?_,
          Or.inl ⟨ok, success, fun _ => rfl⟩⟩
        · simp [resumed]
        · change memory.extra.connecteds _ = _
          rw [extra]
          exact Function.update_self ..
      · refine ⟨_, connected, Function.update_self .., rfl, ?_, ?_,
          Or.inl ⟨ok, success, fun connects => ?_⟩⟩
        · simp [resumed]
        · change memory.extra.connecteds _ = _
          rw [extra]
          exact alive
        · rw [sends] at connects
          cases connects
      · refine ⟨_, { flags with broken := true }, Function.update_self .., rfl, ?_, ?_,
          Or.inr ⟨failed, failure, rfl⟩⟩
        · simp [resumed]
        · change memory.extra.connecteds _ = _
          rw [extra]
          exact Function.update_self ..

end Enabled

section Deeds

variable {world next : World Operation Streams}
  {label : Label Parameters (Nat × Bool) Outcome Action}

/-- What a step does to the `connected` objects and the sockets. -/
inductive Deed (world : World Operation Streams) :
    Label Parameters (Nat × Bool) Outcome Action → Streams → Prop where
  | rests (label : Label Parameters (Nat × Bool) Outcome Action) :
      Deed world label world.memory.extra
  | connects (task place : Nat) (started : Bool) (handle : Nat) (sock : Sock)
      (socket : world.memory.extra.socks handle = some sock) :
      Deed world (.run task (place, started))
        (world.memory.extra.putSock handle (some { sock with connectReq := some place }))
  | sends (task place : Nat) (started : Bool) (handle : Nat) (sock : Sock)
      (socket : world.memory.extra.socks handle = some sock) :
      Deed world (.run task (place, started)) (world.memory.extra.putSock handle
        (some { sock with writeQueue := sock.writeQueue ++ [place] }))
  | cancels (task : Nat) (direct : Bool) (entry : Entry Operation) (connected : Connected)
      (known : world.tasks task = some entry)
      (alive : world.memory.extra.connecteds entry.object.handle = some connected) :
      Deed world (.cancel task direct) (world.memory.extra.putConnected entry.object.handle
        (some { connected with broken := true }))
  | answers (place handle : Nat) (kind : Kind) (status : Status) (sock left : Sock)
      (streams : Streams) (socket : world.memory.extra.socks handle = some sock)
      (takes : Operation.takeOff sock place kind = some left)
      (written : streams = world.memory.extra.putSock handle (some left) ∨
        ∃ connected, world.memory.extra.connecteds handle = some connected ∧
          (kind = .connect ∧ status = .ok ∧
            streams = (world.memory.extra.putSock handle (some left)).putConnected handle
              (some { connected with established := true }) ∨
          status = .failed ∧
            streams = (world.memory.extra.putSock handle (some left)).putConnected handle
              (some { connected with broken := true }))) :
      Deed world (.callback place ⟨kind, handle, status⟩) streams
  | acts (action : Action) (streams : Streams)
      (acted : world.memory.extra.act action = some streams) : Deed world (.act action) streams

theorem callback_deed (linked : Linked streaming world) (seated : Seated world) {place : Nat}
    {outcome : Outcome} (taken : world.callback streaming place outcome = some next) :
    Deed world (.callback place outcome) next.memory.extra := by
  obtain ⟨kind, handle, status⟩ := outcome
  obtain ⟨-, ⟨memory, behind, called, ends, rfl⟩ |
    ⟨memory, owner, entry, object, after, behind, called, known, still, backs, rfl⟩⟩ :=
      callback_cases linked taken
  · obtain ⟨sock, request, left, socket, -, -, -, takes, -, cases⟩ := streamCb_cases called
    obtain ⟨-, extra, -⟩ | ⟨_, _, _, -, -, -, no, -⟩ := cases
    · obtain rfl := free_cases ends
      exact .answers place handle kind status sock left _ socket takes (Or.inl extra)
    · cases no
  · cases backs
    obtain ⟨sock, request, left, socket, there, pending, -, takes, -, cases⟩ :=
      streamCb_cases called
    obtain ⟨no, -⟩ | ⟨task, waiting, _, names, shown, told, same, answered⟩ := cases
    · cases no
    · cases same
      -- the task works on the object whose socket has called back
      obtain ⟨seat, -⟩ := takeOff_seats seated socket takes
      obtain ⟨found, held, -, -, named⟩ := seated.held _ _ _ seat
      rw [there] at held
      cases held
      obtain ⟨kinds, handles⟩ := named owner names entry known
      rw [World.objects, known] at shown
      cases shown
      obtain ⟨-, -, -, written⟩ := answer_cases answered
      refine .answers place handle kind status sock left _ socket takes ?_
      rw [handles, kinds] at written
      rcases written with ⟨ok, -, connects, connected, alive, -, extra⟩ | ⟨-, -, -, extra⟩ |
        ⟨failed, -, connected, alive, extra⟩
      · exact Or.inr ⟨connected, alive, Or.inl ⟨connects, ok, extra⟩⟩
      · exact Or.inl extra
      · exact Or.inr ⟨connected, alive, Or.inr ⟨failed, extra⟩⟩

theorem step_deed (linked : Linked streaming world) (seated : Seated world)
    (taken : step streaming world label = some next) : Deed world label next.memory.extra := by
  cases label with
  | make task parameters =>
      simp only [step] at taken
      split at taken
      · cases taken
      · obtain ⟨object, -, rfl⟩ := Option.map_eq_some_iff.mp taken
        exact .rests _
  | destroy task =>
      simp only [step] at taken
      split at taken
      · cases taken
      · split at taken
        · cases taken
        · cases taken
          exact .rests _
  | run task input =>
      obtain ⟨place, started⟩ := input
      obtain ⟨entry, object, memory, yields, -, -, runs, rfl⟩ := ran_cases taken
      obtain ⟨-, -, -, -, connected, sock, -, -, socket, ⟨-, -, -, extra⟩ | ⟨-, extra⟩⟩ :=
        run_cases runs
      · change Deed world _ memory.extra
        rw [extra]
        exact .connects task place started _ sock socket
      · change Deed world _ memory.extra
        rw [extra]
        exact .sends task place started _ sock socket
  | cancel task direct =>
      obtain ⟨entry, object, memory, known, -, cuts, rfl⟩ := PrimitiveLinks.cancel_cases taken
      obtain ⟨spot, request, connected, -, -, -, -, -, alive, extra⟩ := TcpStreams.cancel_cases cuts
      change Deed world _ memory.extra
      rw [extra]
      exact .cancels task direct entry connected known alive
  | callback place outcome => exact callback_deed linked seated taken
  | callbackEnd =>
      simp only [step, World.callbackEnd] at taken
      split at taken
      · cases taken
      · obtain ⟨behind, ends, rfl⟩ := Option.map_eq_some_iff.mp taken
        obtain rfl := free_cases ends
        exact .rests _
  | closed place =>
      simp only [step, World.closed] at taken
      split at taken
      · cases taken
      · split at taken
        · cases taken
          exact .rests _
        · cases taken
  | act action =>
      simp only [step] at taken
      obtain ⟨memory, acts, rfl⟩ := Option.map_eq_some_iff.mp taken
      obtain ⟨streams, changed, rfl⟩ := Option.map_eq_some_iff.mp acts
      exact .acts action streams changed

variable {streams : Streams} {handle : Nat} {connected connected' : Connected} {sock sock' : Sock}

theorem put_cases (written : Connected → Connected) {place : Nat} {other : Connected}
    (alive : world.memory.extra.connecteds place = some other)
    (before : world.memory.extra.connecteds handle = some connected)
    (after : Function.update world.memory.extra.connecteds place (some (written other)) handle =
      some connected') :
    connected' = connected ∨ place = handle ∧ connected' = written connected := by
  rcases update_some after with ⟨rfl, same⟩ | ⟨-, same⟩
  · cases before.symm.trans alive
    exact Or.inr ⟨rfl, (Option.some.inj same).symm⟩
  · exact Or.inl (Option.some.inj (same.symm.trans before))

/-- Only an `accept` and a success of `connect` establish, only failures and cancellations break,
and both for good. -/
def Marked (world : World Operation Streams)
    (label : Label Parameters (Nat × Bool) Outcome Action) (handle : Nat)
    (connected connected' : Connected) : Prop :=
  connected' = connected ∨
    connected' = { connected with established := true } ∧ (label = .act (.accepted handle) ∨
      ∃ place, label = .callback place ⟨.connect, handle, .ok⟩) ∨
    connected' = { connected with broken := true } ∧ (label = .act (.readFailed handle) ∨
      (∃ place kind, label = .callback place ⟨kind, handle, .failed⟩) ∨
      ∃ task direct entry, label = .cancel task direct ∧ world.tasks task = some entry ∧
        entry.object.handle = handle)

theorem act_marks (seated : Seated world) {action : Action}
    (acted : world.memory.extra.act action = some streams)
    (before : world.memory.extra.connecteds handle = some connected)
    (after : streams.connecteds handle = some connected') :
    Marked world (.act action) handle connected connected' := by
  cases action with
  | create place =>
      simp only [Streams.act] at acted
      split at acted
      · cases acted
      · rename_i absent
        cases acted
        rcases update_some after with ⟨rfl, -⟩ | ⟨-, same⟩
        · obtain ⟨sock, socket, -⟩ := (seated.plugged _).mp ⟨connected, before⟩
          rw [absent] at socket
          cases socket
        · exact Or.inl (Option.some.inj (same.symm.trans before))
  | destroy place =>
      simp only [Streams.act] at acted
      split at acted
      · cases acted
        rcases update_some after with ⟨-, gone⟩ | ⟨-, same⟩
        · cases gone
        · exact Or.inl (Option.some.inj (same.symm.trans before))
      · cases acted
  | accepted place =>
      obtain ⟨other, alive, -, rfl⟩ := establish_cases acted
      rcases put_cases (fun old => { old with established := true }) alive before after with
        same | ⟨rfl, same⟩
      · exact Or.inl same
      · exact Or.inr (Or.inl ⟨same, Or.inl rfl⟩)
  | readFailed place =>
      obtain ⟨other, alive, rfl⟩ := breakOff_cases acted
      rcases put_cases (fun old => { old with broken := true }) alive before after with
        same | ⟨rfl, same⟩
      · exact Or.inl same
      · exact Or.inr (Or.inr ⟨same, Or.inl rfl⟩)
  | sockClosed place =>
      simp only [Streams.act] at acted
      split at acted
      · cases acted
      · split at acted
        · cases acted
          exact Or.inl (Option.some.inj (after.symm.trans before))
        · cases acted

theorem deed_marks (seated : Seated world) (deed : Deed world label streams)
    (before : world.memory.extra.connecteds handle = some connected)
    (after : streams.connecteds handle = some connected') :
    Marked world label handle connected connected' := by
  cases deed with
  | rests => exact Or.inl (Option.some.inj (after.symm.trans before))
  | connects => exact Or.inl (Option.some.inj (after.symm.trans before))
  | sends => exact Or.inl (Option.some.inj (after.symm.trans before))
  | cancels task direct entry other known alive =>
      rcases put_cases (fun old => { old with broken := true }) alive before after with
        same | ⟨rfl, same⟩
      · exact Or.inl same
      · exact Or.inr (Or.inr ⟨same, Or.inr (Or.inr ⟨task, direct, entry, rfl, known, rfl⟩)⟩)
  | answers place at_ kind status sock left _ socket takes written =>
      rcases written with rfl | ⟨other, alive, ⟨rfl, rfl, rfl⟩ | ⟨rfl, rfl⟩⟩
      · exact Or.inl (Option.some.inj (after.symm.trans before))
      · rcases put_cases (fun old => { old with established := true }) alive before
          after with same | ⟨rfl, same⟩
        · exact Or.inl same
        · exact Or.inr (Or.inl ⟨same, Or.inr ⟨place, rfl⟩⟩)
      · rcases put_cases (fun old => { old with broken := true }) alive before after with
          same | ⟨rfl, same⟩
        · exact Or.inl same
        · exact Or.inr (Or.inr ⟨same, Or.inr (Or.inl ⟨place, kind, rfl⟩)⟩)
  | acts action _ acted => exact act_marks seated acted before after

theorem cancel_breaks {task : Nat} {direct : Bool} {entry : Entry Operation}
    (known : world.tasks task = some entry)
    (taken : step streaming world (.cancel task direct) = some next) :
    ∃ connected, next.memory.extra.connecteds entry.object.handle = some connected ∧
      connected.broken = true := by
  obtain ⟨entry', object, memory, known', -, cuts, rfl⟩ := PrimitiveLinks.cancel_cases taken
  obtain ⟨spot, request, connected, -, -, -, -, -, -, extra⟩ := TcpStreams.cancel_cases cuts
  cases known.symm.trans known'
  refine ⟨{ connected with broken := true }, ?_, rfl⟩
  change memory.extra.connecteds _ = _
  rw [extra]
  exact Function.update_self ..

/-- Sends queue up at the end, and only the first one is answered. -/
def Queued (label : Label Parameters (Nat × Bool) Outcome Action) (handle : Nat)
    (queue queue' : List Nat) : Prop :=
  queue' = queue ∨
    (∃ task place started, label = .run task (place, started) ∧ queue' = queue ++ [place]) ∨
    ∃ place status, label = .callback place ⟨.send, handle, status⟩ ∧ queue = place :: queue'

theorem act_queues {action : Action} (acted : world.memory.extra.act action = some streams)
    (before : world.memory.extra.socks handle = some sock)
    (after : streams.socks handle = some sock') : sock'.writeQueue = sock.writeQueue := by
  have rests (same : world.memory.extra.socks handle = some sock') :
      sock'.writeQueue = sock.writeQueue := by
    cases before.symm.trans same
    rfl
  cases action with
  | create place =>
      simp only [Streams.act] at acted
      split at acted
      · cases acted
      · rename_i absent
        cases acted
        rcases update_some after with ⟨rfl, -⟩ | ⟨-, same⟩
        · cases before.symm.trans absent
        · exact rests same
  | destroy place =>
      simp only [Streams.act] at acted
      split at acted
      · rename_i connected other alive socket
        cases acted
        rcases update_some after with ⟨rfl, same⟩ | ⟨-, same⟩
        · cases same
          cases before.symm.trans socket
          rfl
        · exact rests same
      · cases acted
  | accepted place =>
      obtain ⟨other, alive, -, rfl⟩ := establish_cases acted
      exact rests after
  | readFailed place =>
      obtain ⟨other, alive, rfl⟩ := breakOff_cases acted
      exact rests after
  | sockClosed place =>
      simp only [Streams.act] at acted
      split at acted
      · cases acted
      · split at acted
        · cases acted
          rcases update_some after with ⟨-, gone⟩ | ⟨-, same⟩
          · cases gone
          · exact rests same
        · cases acted

theorem deed_queues (deed : Deed world label streams)
    (before : world.memory.extra.socks handle = some sock)
    (after : streams.socks handle = some sock') :
    Queued label handle sock.writeQueue sock'.writeQueue := by
  have rests (same : world.memory.extra.socks handle = some sock') :
      Queued label handle sock.writeQueue sock'.writeQueue := by
    cases before.symm.trans same
    exact Or.inl rfl
  cases deed with
  | rests => exact rests after
  | connects task place started at_ other socket =>
      rcases update_some after with ⟨rfl, same⟩ | ⟨-, same⟩
      · cases same
        cases before.symm.trans socket
        exact Or.inl rfl
      · exact rests same
  | sends task place started at_ other socket =>
      rcases update_some after with ⟨rfl, same⟩ | ⟨-, same⟩
      · cases same
        cases before.symm.trans socket
        exact Or.inr (Or.inl ⟨task, place, started, rfl, rfl⟩)
      · exact rests same
  | cancels => exact rests after
  | answers place at_ kind status other left _ socket takes written =>
      have kept : streams.socks = Function.update world.memory.extra.socks at_ (some left) := by
        rcases written with rfl | ⟨_, _, ⟨_, _, rfl⟩ | ⟨_, rfl⟩⟩ <;> rfl
      rw [kept] at after
      rcases update_some after with ⟨rfl, same⟩ | ⟨-, same⟩
      · cases same
        cases before.symm.trans socket
        obtain ⟨-, ⟨-, -, -, queue⟩ | ⟨rfl, -, queue⟩⟩ := takeOff_cases takes
        · exact Or.inl queue
        · exact Or.inr (Or.inr ⟨place, status, rfl, queue⟩)
      · exact rests same
  | acts action _ acted => exact Or.inl (act_queues acted before after)

end Deeds

/-- Every waiting task has its request at the open socket of its `connected`; the callbacks and
the cancellations that are due can run; each task settles once, with a result that its
`connected` agrees with; nothing else changes a `connected`, and writes are answered in their
order; and no request is leaked. -/
structure Sound (world : World Operation Streams) : Prop where
  waits : ∀ task entry, world.tasks task = some entry → entry.yielded = true →
    ∃ place sock, entry.object.req = some place ∧
      Seat world.memory.extra entry.object.handle place entry.object.kind ∧
      world.memory.extra.socks entry.object.handle = some sock ∧ sock.closing = false
  linked : Linked streaming world
  requests : Swept world
  answered : ∀ handle place kind status sock left,
    world.memory.extra.socks handle = some sock → Operation.takeOff sock place kind = some left →
      world.calling = none → (status = .canceled ↔ sock.closing = true) →
        ∃ next, step streaming world (.callback place ⟨kind, handle, status⟩) = some next
  results : ∀ task entry place kind handle status next, world.tasks task = some entry →
    entry.yielded = true → entry.object.req = some place →
      step streaming world (.callback place ⟨kind, handle, status⟩) = some next →
        ∃ after connected, next.tasks task = some after ∧ after.yielded = false ∧
          after.resumed = 1 ∧
          next.memory.extra.connecteds entry.object.handle = some connected ∧
          ((status = .ok ∧ after.object.ret = .success ∧
              (entry.object.kind = .connect → connected.established = true)) ∨
            (status = .failed ∧ after.object.ret = .failure ∧ connected.broken = true))
  cancels : ∀ task entry direct, world.tasks task = some entry → entry.yielded = true →
    entry.object.kind = .connect → ∃ next, step streaming world (.cancel task direct) = some next
  breaks : ∀ task entry direct next, world.tasks task = some entry →
    step streaming world (.cancel task direct) = some next → ∃ connected,
      next.memory.extra.connecteds entry.object.handle = some connected ∧ connected.broken = true
  marks : ∀ label next handle connected connected', step streaming world label = some next →
    world.memory.extra.connecteds handle = some connected →
      next.memory.extra.connecteds handle = some connected' →
        Marked world label handle connected connected'
  queues : ∀ label next handle sock sock', step streaming world label = some next →
    world.memory.extra.socks handle = some sock → next.memory.extra.socks handle = some sock' →
      Queued label handle sock.writeQueue sock'.writeQueue
  returns : world.calling ≠ none → ∃ next, step streaming world .callbackEnd = some next
  once : ∀ task entry, world.tasks task = some entry → entry.resumed + entry.cancelled ≤ 1
  rets : ∀ task entry, world.tasks task = some entry → Kept answers entry

/-- In every run that destroys no `connected` while a task waits on it, and accepts none that
connects. -/
theorem streams_sound {world : World Operation Streams}
    {labels : List (Label Parameters (Nat × Bool) Outcome Action)}
    (along : Along (step streaming) Undisturbed { memory := { extra := {} } } labels)
    (run : replay (step streaming) { memory := { extra := {} } } labels = some world) :
    Sound world := by
  have start : Seated { memory := { extra := {} } } := by
    constructor <;> simp [Seat]
  have all : (Linked streaming world ∧ Seated world) ∧ Honoured answers world ∧ Swept world := by
    refine replay_invariant (fun world => (Linked streaming world ∧ Seated world) ∧
      Honoured answers world ∧ Swept world) ?_
      ⟨⟨initial_linked {}, start⟩, ⟨trivial, by simp⟩, by simp [Swept]⟩ along run
    rintro world label next ⟨both, honoured, swept⟩ undisturbed taken
    obtain ⟨-, after⟩ := streams_step both undisturbed taken
    exact ⟨after, honoured_step answers_met both.1 honoured taken,
      swept_step streaming_lawful streaming_oneTime both.1 swept taken⟩
  obtain ⟨⟨linked, seated⟩, honoured, swept⟩ := all
  constructor
  case waits =>
    intro task entry known still
    obtain ⟨place, connected, own, seat, alive, -⟩ := seated.waits task entry known still
    obtain ⟨sock, socket, opened⟩ := (seated.plugged _).mp ⟨connected, alive⟩
    exact ⟨place, sock, own, seat, socket, opened⟩
  case linked => exact linked
  case requests => exact swept
  case answered =>
    exact fun _ _ _ _ _ _ socket takes idle => callback_enabled linked seated socket takes idle
  case results =>
    exact fun _ _ _ _ _ _ _ known still own taken =>
      callback_answers linked seated taken known still own
  case cancels =>
    exact fun _ _ direct known still connects =>
      cancel_enabled linked seated known still connects direct
  case breaks => exact fun _ _ _ _ known taken => cancel_breaks known taken
  case marks =>
    exact fun _ _ _ _ _ taken before after =>
      deed_marks seated (step_deed linked seated taken) before after
  case queues =>
    exact fun _ _ _ _ _ taken before after =>
      deed_queues (step_deed linked seated taken) before after
  case returns =>
    intro busy
    obtain ⟨place, calling⟩ := Option.ne_none_iff_exists'.mp busy
    exact callbackEnd_proceeds linked calling fun _ => free_there
  case once => exact fun _ _ known => linked.once known
  case rets => exact honoured.kept

/-- A `connect` is cancelled and its `connected` destroyed, so that its request is answered by
the socket that is being closed. On another object a `connect` succeeds and one of two `send`s
fails. -/
def oneClosed : List (Label Parameters (Nat × Bool) Outcome Action) :=
  [.act (.create 0), .act (.create 1), .make 0 (.connect 0), .make 1 (.connect 1),
    .run 0 (10, true), .run 1 (11, true), .cancel 0 false, .act (.destroy 0),
    .callback 11 ⟨.connect, 1, .ok⟩, .callbackEnd, .make 2 (.send 1 [3]), .make 3 (.send 1 [1, 2]),
    .run 2 (12, true), .run 3 (13, true), .callback 10 ⟨.connect, 0, .canceled⟩,
    .act (.sockClosed 0), .callback 12 ⟨.send, 1, .ok⟩, .callbackEnd,
    .callback 13 ⟨.send, 1, .failed⟩]

theorem streams_sound_closed : ∃ world,
    replay (step streaming) { memory := { extra := {} } } oneClosed = some world ∧
      world.memory.extra.connecteds 1 = some { established := true, broken := true } ∧
      Sound world := by
  have reached : (replay (step streaming) { memory := { extra := {} } } oneClosed).isSome := by
    decide +kernel
  have along : Along (step streaming) Undisturbed { memory := { extra := {} } } oneClosed := by
    decide +kernel
  have broken : ((replay (step streaming) { memory := { extra := {} } } oneClosed).get
      reached).memory.extra.connecteds 1 = some { established := true, broken := true } := by
    decide +kernel +revert
  have run := (Option.some_get reached).symm
  exact ⟨_, run, broken, streams_sound along run⟩

end Cocoflow.TcpSeats
