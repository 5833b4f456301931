import Mathlib.Logic.Function.Basic
import Cocoflow.LabelledRuns
import Cocoflow.SyncTasks

/-!
Notifications of `sync` tasks. `sync::ids` lists the suspended named tasks, `notify` finds out
whether a task is suspended, and a task that has been notified while it was suspended is resumed
once, unless it is cancelled before libuv delivers the notification.
-/

namespace Cocoflow.SyncWakeups

open LabelledRuns SyncTasks

/-- A suspended task owns an open handle, on which a callback is pending if it was notified. -/
structure Waiting (world : World) (task : Nat) (sync : Sync) (handle : Nat) (async : Async) :
    Prop where
  owns : sync.async = some handle
  held : world.asyncs handle = some async
  data : async.data = task
  opened : async.closing = false
  pending : async.pending = true ↔ 0 < sync.notified
  status : sync.status = .running
  untouched : sync.resumed = 0 ∧ sync.cancelled = 0

structure Rested (sync : Sync) : Prop where
  async : sync.async = none
  ended : sync.status ≠ .running
  fresh : sync.status = .ready → sync.notified = 0 ∧ sync.resumed = 0 ∧ sync.cancelled = 0
  once : sync.status ≠ .ready → sync.resumed + sync.cancelled = 1
  called : 0 < sync.resumed → 0 < sync.notified

structure Sound (world : World) : Prop where
  waits : ∀ task sync, world.syncs task = some sync → sync.yielded = true →
    ∃ handle async, Waiting world task sync handle async
  rests : ∀ task sync, world.syncs task = some sync → sync.yielded = false → Rested sync
  ids : ∀ id task, world.ids id = some task ↔
    ∃ sync, world.syncs task = some sync ∧ sync.yielded = true ∧ sync.id = some id
  owned : ∀ handle async, world.asyncs handle = some async → async.closing = false →
    ∃ sync, world.syncs async.data = some sync ∧ sync.async = some handle
  quiet : world.signalCanceled = false

theorem putSync_known {world : World} {task other : Nat} {sync found : Sync}
    (entry : (world.putSync task sync).syncs other = some found) :
    (other = task ∧ found = sync) ∨ (other ≠ task ∧ world.syncs other = some found) := by
  by_cases own : other = task
  · subst own
    have self : (world.putSync other sync).syncs other = some sync := Function.update_self ..
    exact Or.inl ⟨rfl, Option.some.inj (entry.symm.trans self)⟩
  · exact Or.inr ⟨own, (Function.update_of_ne own ..).symm.trans entry⟩

theorem putAsync_known {world : World} {handle place : Nat} {async found : Async}
    (entry : (world.putAsync handle async).asyncs place = some found) :
    (place = handle ∧ found = async) ∨ (place ≠ handle ∧ world.asyncs place = some found) := by
  by_cases own : place = handle
  · subst own
    have self : (world.putAsync place async).asyncs place = some async := Function.update_self ..
    exact Or.inl ⟨rfl, Option.some.inj (entry.symm.trans self)⟩
  · exact Or.inr ⟨own, (Function.update_of_ne own ..).symm.trans entry⟩

section Leaving

variable {world : World} {task handle : Nat} {sync last : Sync} {async async' : Async}

def dropId (ids : Int → Option Nat) : Option Int → Int → Option Nat
  | none => ids
  | some id => Function.update ids id none

def left (world : World) (task handle : Nat) (last : Sync) (async : Async) : World :=
  { syncs := Function.update world.syncs task (some last)
    ids := dropId world.ids last.id
    asyncs := Function.update world.asyncs handle (some { async with closing := true })
    signalCanceled := false }

@[simp] theorem left_putSync :
    left (world.putSync task sync) task handle last async = left world task handle last async := by
  simp [left, World.putSync, Function.update_idem]

@[simp] theorem left_putAsync :
    left (world.putAsync handle async') task handle last async =
      left world task handle last async := by
  simp [left, World.putAsync, Function.update_idem]

@[simp] theorem left_signal (signal : Bool) :
    left { world with signalCanceled := signal } task handle last async =
      left world task handle last async := rfl

theorem release_eq (held : world.syncs task = some sync) (owns : sync.async = some handle)
    (known : world.asyncs handle = some async) (opened : async.closing = false)
    (listed : ∀ id, sync.id = some id → world.ids id = some task)
    (quiet : world.signalCanceled = false) :
    world.release task = some (left world task handle { sync with async := none } async) := by
  unfold World.release
  rw [held]
  dsimp only
  rw [owns]
  cases named : sync.id with
  | none =>
      simp [World.eraseId, World.uvClose, known, opened, left, dropId, World.putSync,
        World.putAsync, quiet]
  | some id =>
      simp [World.eraseId, World.uvClose, known, opened, left, dropId, World.putSync,
        World.putAsync, quiet, listed id named]

theorem Sound.listed {id : Int} (sound : Sound world) (held : world.syncs task = some sync)
    (yielded : sync.yielded = true) (named : sync.id = some id) : world.ids id = some task :=
  (sound.ids id task).mpr ⟨sync, held, yielded, named⟩

theorem dropId_iff (sound : Sound world) (held : world.syncs task = some sync)
    (yielded : sync.yielded = true) (id : Int) (other : Nat) :
    dropId world.ids sync.id id = some other ↔ world.ids id = some other ∧ other ≠ task := by
  cases named : sync.id with
  | none =>
      constructor
      · intro listed
        refine ⟨listed, ?_⟩
        rintro rfl
        obtain ⟨known, again, -, has⟩ := (sound.ids id other).mp listed
        cases held.symm.trans again
        rw [named] at has
        cases has
      · exact And.left
  | some own =>
      have listed := sound.listed held yielded named
      by_cases same : id = own
      · subst same
        simp [dropId, listed, eq_comm]
      · rw [dropId, Function.update_of_ne same]
        constructor
        · intro entry
          refine ⟨entry, ?_⟩
          rintro rfl
          obtain ⟨known, again, -, has⟩ := (sound.ids id other).mp entry
          cases held.symm.trans again
          rw [named] at has
          exact same (Option.some.inj has).symm
        · exact And.left

theorem sound_left (sound : Sound world) (held : world.syncs task = some sync)
    (yielded : sync.yielded = true) (waiting : Waiting world task sync handle async)
    (rested : Rested last) (back : last.yielded = false) (same : last.id = sync.id) :
    Sound (left world task handle last async') := by
  have known : ∀ other found, (left world task handle last async').syncs other = some found →
      (other = task ∧ found = last) ∨ (other ≠ task ∧ world.syncs other = some found) :=
    fun _ _ => putSync_known
  constructor
  case waits =>
      intro other found entry suspended
      rcases known other found entry with ⟨rfl, rfl⟩ | ⟨apart, before⟩
      · rw [back] at suspended
        cases suspended
      · obtain ⟨place, record, waits⟩ := sound.waits other found before suspended
        have elsewhere : place ≠ handle := by
          rintro rfl
          cases waiting.held.symm.trans waits.held
          exact apart (waits.data.symm.trans waiting.data)
        refine ⟨place, record, { waits with held := ?_ }⟩
        exact (Function.update_of_ne elsewhere ..).trans waits.held
  case rests =>
      intro other found entry done
      rcases known other found entry with ⟨rfl, rfl⟩ | ⟨-, before⟩
      · exact rested
      · exact sound.rests other found before done
  case ids =>
      intro id other
      have dropped := dropId_iff sound held yielded id other
      rw [← same] at dropped
      refine dropped.trans ?_
      rw [sound.ids]
      constructor
      · rintro ⟨⟨found, before, suspended, named⟩, apart⟩
        exact ⟨found, (Function.update_of_ne apart ..).trans before, suspended, named⟩
      · rintro ⟨found, entry, suspended, named⟩
        rcases known other found entry with ⟨rfl, rfl⟩ | ⟨apart, before⟩
        · rw [back] at suspended
          cases suspended
        · exact ⟨⟨found, before, suspended, named⟩, apart⟩
  case owned =>
      intro place record entry opened
      by_cases own : place = handle
      · subst own
        have self : (left world task place last async').asyncs place =
            some { async' with closing := true } := Function.update_self ..
        cases self.symm.trans entry
        cases opened
      · have kept : (left world task handle last async').asyncs place = world.asyncs place :=
          Function.update_of_ne own ..
        obtain ⟨found, before, owns⟩ := sound.owned place record (kept.symm.trans entry) opened
        refine ⟨found, ?_, owns⟩
        refine (Function.update_of_ne ?_ ..).trans before
        intro same
        rw [same] at before
        cases held.symm.trans before
        exact own (Option.some.inj (owns.symm.trans waiting.owns))
  case quiet => rfl

def resumed (sync : Sync) : Sync :=
  { sync with
    async := none, status := .completed, yielded := false, resumed := sync.resumed + 1 }

def cancelled (sync : Sync) : Sync :=
  { sync with
    async := none, status := .canceled, yielded := false, cancelled := sync.cancelled + 1 }

theorem yieldBack_resumed (sound : Sound world) (held : world.syncs task = some sync)
    (yielded : sync.yielded = true) (waiting : Waiting world task sync handle async) :
    (world.putAsync handle { async with pending := false }).taskYieldBack task =
      some (left world task handle (resumed sync) { async with pending := false }) := by
  have seen : (world.putAsync handle { async with pending := false }).syncs task = some sync := held
  have quiet : (world.putAsync handle { async with pending := false }).signalCanceled = false :=
    sound.quiet
  unfold World.taskYieldBack
  rw [seen]
  dsimp only
  rw [yielded, quiet]
  have freed : World.release ((world.putAsync handle { async with pending := false }).putSync task
      { sync with yielded := false, resumed := sync.resumed + 1 }) task = _ :=
    release_eq (Function.update_self ..) waiting.owns (Function.update_self ..) waiting.opened
      (fun _ named => sound.listed held yielded named) quiet
  simp only [Bool.true_eq_false, Bool.false_eq_true, ↓reduceIte, World.runBack]
  rw [freed, left_putSync, left_putAsync]
  simp [left, World.putSync, waiting.status, resumed, Function.update_idem]

/-- Whether `__task_yield` throws or calls `cancel` itself, `cancel` runs once. -/
theorem yieldBack_cancelled (signal : world.signalCanceled = true)
    (held : world.syncs task = some sync) (yielded : sync.yielded = true)
    (owns : sync.async = some handle) (known : world.asyncs handle = some async)
    (opened : async.closing = false) (listed : ∀ id, sync.id = some id → world.ids id = some task) :
    world.taskYieldBack task = some (left world task handle (cancelled sync) async) := by
  have freed : World.release (World.putSync { world with signalCanceled := false } task
      { sync with
        yielded := false, status := .canceled, cancelled := sync.cancelled + 1 }) task = _ :=
    release_eq (Function.update_self ..) owns known opened listed rfl
  rw [left_putSync] at freed
  unfold World.taskYieldBack
  rw [held]
  dsimp only
  rw [yielded, signal]
  simp only [Bool.true_eq_false, ↓reduceIte]
  split
  · exact freed
  · rename_i same
    rw [not_not] at same
    rw [same]
    exact freed

theorem cancelTask_eq (sound : Sound world) (held : world.syncs task = some sync)
    (yielded : sync.yielded = true) (waiting : Waiting world task sync handle async)
    (direct : Bool) :
    world.cancelTask task direct = some (left world task handle (cancelled sync) async) := by
  have listed : ∀ id, sync.id = some id → world.ids id = some task :=
    fun _ named => sound.listed held yielded named
  unfold World.cancelTask
  rw [held]
  cases direct with
  | true =>
      have ends : World.taskYieldBack (World.putSync { world with signalCanceled := true } task
          { sync with status := .canceled }) task = _ :=
        yieldBack_cancelled rfl (Function.update_self ..) yielded waiting.owns waiting.held
          waiting.opened listed
      rw [left_putSync] at ends
      exact ends
  | false =>
      exact yieldBack_cancelled rfl held yielded waiting.owns waiting.held waiting.opened listed

theorem rested_resumed (waiting : Waiting world task sync handle async)
    (called : 0 < sync.notified) : Rested (resumed sync) where
  async := rfl
  ended := fun running => by cases running
  fresh := fun ready => by cases ready
  once := by
    intro _
    show sync.resumed + 1 + sync.cancelled = 1
    rw [waiting.untouched.1, waiting.untouched.2]
  called := fun _ => called

theorem rested_cancelled (waiting : Waiting world task sync handle async) :
    Rested (cancelled sync) where
  async := rfl
  ended := fun running => by cases running
  fresh := fun ready => by cases ready
  once := by
    intro _
    show sync.resumed + (sync.cancelled + 1) = 1
    rw [waiting.untouched.1, waiting.untouched.2]
  called := by
    intro again
    have never : 0 < sync.resumed := again
    rw [waiting.untouched.1] at never
    exact absurd never (Nat.lt_irrefl 0)

end Leaving

section Steps

variable {world next : World}

theorem Sound.waiting {task handle : Nat} {sync : Sync} (sound : Sound world)
    (held : world.syncs task = some sync) (owns : sync.async = some handle) :
    sync.yielded = true ∧ ∃ async, Waiting world task sync handle async := by
  cases suspended : sync.yielded with
  | false =>
      have rested := sound.rests task sync held suspended
      rw [rested.async] at owns
      cases owns
  | true =>
      obtain ⟨place, async, waits⟩ := sound.waits task sync held suspended
      cases owns.symm.trans waits.owns
      exact ⟨rfl, async, waits⟩

theorem sound_make {task : Nat} {id : Option Int} (sound : Sound world)
    (free : world.syncs task = none) : Sound (world.putSync task { id := id }) := by
  have kept : ∀ other found, world.syncs other = some found →
      (world.putSync task { id := id }).syncs other = some found := by
    intro other found held
    refine (Function.update_of_ne ?_ ..).trans held
    rintro rfl
    rw [free] at held
    cases held
  constructor
  case waits =>
      intro other found entry suspended
      rcases putSync_known entry with ⟨-, rfl⟩ | ⟨-, before⟩
      · cases suspended
      · obtain ⟨handle, async, waits⟩ := sound.waits other found before suspended
        exact ⟨handle, async, { waits with held := waits.held }⟩
  case rests =>
      intro other found entry done
      rcases putSync_known entry with ⟨-, rfl⟩ | ⟨-, before⟩
      · exact ⟨rfl, (fun running => by cases running), fun _ => ⟨rfl, rfl, rfl⟩,
          fun started => absurd rfl started, fun never => absurd never (Nat.lt_irrefl 0)⟩
      · exact sound.rests other found before done
  case ids =>
      intro id' other
      refine (sound.ids id' other).trans ?_
      constructor
      · rintro ⟨found, before, rest⟩
        exact ⟨found, kept other found before, rest⟩
      · rintro ⟨found, entry, suspended, named⟩
        rcases putSync_known entry with ⟨-, rfl⟩ | ⟨-, before⟩
        · cases suspended
        · exact ⟨found, before, suspended, named⟩
  case owned =>
      intro handle async held opened
      obtain ⟨found, before, owns⟩ := sound.owned handle async held opened
      exact ⟨found, kept _ found before, owns⟩
  case quiet => exact sound.quiet

def addId (ids : Int → Option Nat) (task : Nat) : Option Int → Int → Option Nat
  | none => ids
  | some id => Function.update ids id (some task)

theorem insertId_cases {task : Nat} {id : Option Int}
    (taken : world.insertId task id = some next) :
    (∀ own, id = some own → world.ids own = none) ∧
      next = { world with ids := addId world.ids task id } := by
  cases id with
  | none =>
      cases taken
      refine ⟨?_, rfl⟩
      rintro own ⟨⟩
  | some own =>
      unfold World.insertId at taken
      dsimp only at taken
      split at taken
      · rename_i free
        cases taken
        refine ⟨?_, rfl⟩
        rintro _ ⟨⟩
        exact free
      · cases taken

def started (world : World) (task handle : Nat) (sync : Sync) : World :=
  World.putSync (World.putAsync { world with ids := addId world.ids task sync.id }
    handle { data := task }) task
    { sync with async := some handle, status := .running, yielded := true }

theorem run_cases {task handle : Nat} (taken : world.run task handle = some next) :
    ∃ sync, world.syncs task = some sync ∧ sync.status = .ready ∧ world.asyncs handle = none ∧
      (∀ id, sync.id = some id → world.ids id = none) ∧ next = started world task handle sync := by
  unfold World.run at taken
  split at taken
  · cases taken
  · rename_i sync held
    split at taken
    · rename_i ready
      obtain ⟨listed, inserted, rest⟩ := Option.bind_eq_some_iff.mp taken
      obtain ⟨opened, init, rfl⟩ := Option.map_eq_some_iff.mp rest
      obtain ⟨fresh, rfl⟩ := insertId_cases inserted
      unfold World.uvAsyncInit at init
      split at init
      · rename_i free
        cases init
        exact ⟨sync, held, ready, free, fresh, rfl⟩
      · cases init
    · cases taken

theorem addId_iff {ids : Int → Option Nat} {task other : Nat} {own : Option Int} {id : Int}
    (fresh : ∀ named, own = some named → ids named = none) :
    addId ids task own id = some other ↔ ids id = some other ∨ own = some id ∧ other = task := by
  cases own with
  | none => simp [addId]
  | some named =>
      have missing := fresh named rfl
      by_cases same : id = named
      · subst same
        simp [addId, missing, eq_comm]
      · rw [addId, Function.update_of_ne same]
        simp [Ne.symm same]

theorem sound_run {task handle : Nat} {sync : Sync} (sound : Sound world)
    (held : world.syncs task = some sync) (ready : sync.status = .ready)
    (free : world.asyncs handle = none) (fresh : ∀ id, sync.id = some id → world.ids id = none) :
    Sound (started world task handle sync) := by
  -- only a suspended task has yielded, and this one is ready
  have idle : sync.yielded = false := by
    cases suspended : sync.yielded with
    | false => rfl
    | true =>
        obtain ⟨_, _, waits⟩ := sound.waits task sync held suspended
        rw [waits.status] at ready
        cases ready
  have rested := sound.rests task sync held idle
  obtain ⟨silent, unresumed, uncancelled⟩ := rested.fresh ready
  constructor
  case waits =>
      intro other found entry suspended
      rcases putSync_known entry with ⟨rfl, rfl⟩ | ⟨apart, before⟩
      · refine ⟨handle, { data := other }, rfl, Function.update_self .., rfl, rfl, ?_, rfl,
          unresumed, uncancelled⟩
        show false = true ↔ 0 < sync.notified
        rw [silent]
        decide
      · obtain ⟨place, async, waits⟩ := sound.waits other found before suspended
        refine ⟨place, async, { waits with held := ?_ }⟩
        refine (Function.update_of_ne ?_ ..).trans waits.held
        rintro rfl
        have occupied := waits.held
        rw [free] at occupied
        cases occupied
  case rests =>
      intro other found entry done
      rcases putSync_known entry with ⟨rfl, rfl⟩ | ⟨-, before⟩
      · cases done
      · exact sound.rests other found before done
  case ids =>
      intro id other
      refine (addId_iff fresh).trans ?_
      rw [sound.ids]
      constructor
      · rintro (⟨found, before, suspended, named⟩ | ⟨named, rfl⟩)
        · refine ⟨found, (Function.update_of_ne ?_ ..).trans before, suspended, named⟩
          rintro rfl
          cases held.symm.trans before
          rw [idle] at suspended
          cases suspended
        · exact ⟨_, Function.update_self .., rfl, named⟩
      · rintro ⟨found, entry, suspended, named⟩
        rcases putSync_known entry with ⟨rfl, rfl⟩ | ⟨-, before⟩
        · exact Or.inr ⟨named, rfl⟩
        · exact Or.inl ⟨found, before, suspended, named⟩
  case owned =>
      intro place async entry opened
      rcases putAsync_known entry with ⟨rfl, rfl⟩ | ⟨-, before⟩
      · exact ⟨_, Function.update_self .., rfl⟩
      · obtain ⟨found, kept, owns⟩ := sound.owned place async before opened
        refine ⟨found, (Function.update_of_ne ?_ ..).trans kept, owns⟩
        intro same
        rw [same] at kept
        cases held.symm.trans kept
        rw [rested.async] at owns
        cases owns
  case quiet => exact sound.quiet

def sent (world : World) (task handle : Nat) (sync : Sync) (async : Async) : World :=
  (world.putAsync handle { async with pending := true }).putSync task
    { sync with notified := sync.notified + 1 }

theorem sound_sent {task handle : Nat} {sync : Sync} {async : Async} (sound : Sound world)
    (held : world.syncs task = some sync) (waiting : Waiting world task sync handle async) :
    Sound (sent world task handle sync async) := by
  have yielded := (sound.waiting held waiting.owns).1
  constructor
  case waits =>
      intro other found entry suspended
      rcases putSync_known entry with ⟨rfl, rfl⟩ | ⟨apart, before⟩
      · exact ⟨handle, { async with pending := true }, waiting.owns, Function.update_self ..,
          waiting.data, waiting.opened, ⟨fun _ => Nat.succ_pos _, fun _ => rfl⟩, waiting.status,
          waiting.untouched⟩
      · obtain ⟨place, record, waits⟩ := sound.waits other found before suspended
        refine ⟨place, record, { waits with held := ?_ }⟩
        refine (Function.update_of_ne ?_ ..).trans waits.held
        rintro rfl
        cases waiting.held.symm.trans waits.held
        exact apart (waits.data.symm.trans waiting.data)
  case rests =>
      intro other found entry done
      rcases putSync_known entry with ⟨rfl, rfl⟩ | ⟨-, before⟩
      · rw [show _ = sync.yielded from rfl, yielded] at done
        cases done
      · exact sound.rests other found before done
  case ids =>
      intro id other
      refine (sound.ids id other).trans ?_
      constructor
      · rintro ⟨found, before, suspended, named⟩
        -- the entry of the task is rewritten, with its id
        by_cases own : other = task
        · subst own
          cases held.symm.trans before
          exact ⟨_, Function.update_self .., suspended, named⟩
        · exact ⟨found, (Function.update_of_ne own ..).trans before, suspended, named⟩
      · rintro ⟨found, entry, suspended, named⟩
        rcases putSync_known entry with ⟨rfl, rfl⟩ | ⟨-, before⟩
        · exact ⟨sync, held, yielded, named⟩
        · exact ⟨found, before, suspended, named⟩
  case owned =>
      intro place record entry opened
      rcases putAsync_known entry with ⟨rfl, rfl⟩ | ⟨-, before⟩
      · refine ⟨{ sync with notified := sync.notified + 1 }, ?_, waiting.owns⟩
        have same : { async with pending := true }.data = task := waiting.data
        rw [same]
        exact Function.update_self ..
      · obtain ⟨found, kept, owns⟩ := sound.owned place record before opened
        by_cases own : record.data = task
        · rw [own] at kept ⊢
          cases held.symm.trans kept
          exact ⟨_, Function.update_self .., owns⟩
        · exact ⟨found, (Function.update_of_ne own ..).trans kept, owns⟩
  case quiet => exact sound.quiet

theorem notify_eq {task handle : Nat} {sync : Sync} {async : Async}
    (held : world.syncs task = some sync) (waiting : Waiting world task sync handle async) :
    world.notify task = some (sent world task handle sync async, 0) := by
  simp [World.notify, World.uvAsyncSend, held, waiting.owns, waiting.held, waiting.opened, sent]

theorem notify_idle {task : Nat} {sync : Sync} (sound : Sound world)
    (held : world.syncs task = some sync) (idle : sync.yielded = false) :
    world.notify task = some (world, -1) := by
  have rested := sound.rests task sync held idle
  simp [World.notify, held, rested.async]

theorem notifyId_eq {id : Int} {task handle : Nat} {sync : Sync} {async : Async}
    (listed : world.ids id = some task) (held : world.syncs task = some sync)
    (waiting : Waiting world task sync handle async) :
    world.notifyId id = some (sent world task handle sync async, 0) := by
  simp [World.notifyId, World.uvAsyncSend, listed, held, waiting.owns, waiting.held,
    waiting.opened, sent]

theorem notifyId_missing {id : Int} (missing : world.ids id = none) :
    world.notifyId id = some (world, -1) := by
  simp [World.notifyId, missing]

theorem Sound.entry {id : Int} {task : Nat} (sound : Sound world)
    (listed : world.ids id = some task) : ∃ sync handle async,
      world.syncs task = some sync ∧ sync.yielded = true ∧ sync.id = some id ∧
        Waiting world task sync handle async := by
  obtain ⟨sync, held, yielded, named⟩ := (sound.ids id task).mp listed
  obtain ⟨handle, async, waiting⟩ := sound.waits task sync held yielded
  exact ⟨sync, handle, async, held, yielded, named, waiting⟩

theorem deliver_eq {handle : Nat} {async : Async} (sound : Sound world)
    (known : world.asyncs handle = some async) (pending : async.pending = true)
    (opened : async.closing = false) : ∃ sync,
      world.syncs async.data = some sync ∧ sync.yielded = true ∧ 0 < sync.notified ∧
        Waiting world async.data sync handle async ∧
        world.syncCb handle = some (left world async.data handle (resumed sync)
          { async with pending := false }) := by
  obtain ⟨sync, held, owns⟩ := sound.owned handle async known opened
  obtain ⟨yielded, record, waiting⟩ := sound.waiting held owns
  cases known.symm.trans waiting.held
  refine ⟨sync, held, yielded, waiting.pending.mp pending, waiting, ?_⟩
  unfold World.syncCb
  rw [known]
  dsimp only
  rw [if_pos ⟨pending, opened⟩]
  exact yieldBack_resumed sound held yielded waiting

theorem sound_closed {handle : Nat} {async : Async} (sound : Sound world)
    (known : world.asyncs handle = some async) (closing : async.closing = true) :
    Sound { world with asyncs := Function.update world.asyncs handle none } := by
  constructor
  case waits =>
      intro task sync held yielded
      obtain ⟨place, record, waits⟩ := sound.waits task sync held yielded
      refine ⟨place, record, { waits with held := (Function.update_of_ne ?_ ..).trans waits.held }⟩
      rintro rfl
      cases known.symm.trans waits.held
      rw [waits.opened] at closing
      cases closing
  case rests => exact sound.rests
  case ids => exact sound.ids
  case owned =>
      intro place record entry opened
      by_cases own : place = handle
      · subst own
        have gone : Function.update world.asyncs place none place = none := Function.update_self ..
        cases gone.symm.trans entry
      · exact sound.owned place record ((Function.update_of_ne own ..).symm.trans entry) opened
  case quiet => exact sound.quiet

/-- What a step does. A label of the last kind is a notification that finds no suspended task. -/
inductive Effect (world : World) : Label → World → Prop
  | made (task : Nat) (id : Option Int) (free : world.syncs task = none) :
      Effect world (.make task id) (world.putSync task { id := id })
  | ran (task handle : Nat) (sync : Sync) (held : world.syncs task = some sync)
      (ready : sync.status = .ready) (free : world.asyncs handle = none)
      (fresh : ∀ id, sync.id = some id → world.ids id = none) :
      Effect world (.run task handle) (started world task handle sync)
  | heard (label : Label) (task handle : Nat) (sync : Sync) (async : Async)
      (held : world.syncs task = some sync) (waiting : Waiting world task sync handle async) :
      Effect world label (sent world task handle sync async)
  | delivered (handle : Nat) (sync : Sync) (async : Async)
      (held : world.syncs async.data = some sync)
      (waiting : Waiting world async.data sync handle async) (called : 0 < sync.notified) :
      Effect world (.deliver handle)
        (left world async.data handle (resumed sync) { async with pending := false })
  | cancelled (task handle : Nat) (direct : Bool) (sync : Sync) (async : Async)
      (held : world.syncs task = some sync) (waiting : Waiting world task sync handle async) :
      Effect world (.cancel task direct) (left world task handle (cancelled sync) async)
  | closed (handle : Nat) (async : Async) (known : world.asyncs handle = some async)
      (closing : async.closing = true) :
      Effect world (.closed handle)
        { world with asyncs := Function.update world.asyncs handle none }
  | unheard (label : Label) : Effect world label world

theorem effect_notify {task : Nat} (sound : Sound world)
    (taken : (world.notify task).map Prod.fst = some next) : Effect world (.notify task) next := by
  cases held : world.syncs task with
  | none => simp [World.notify, held] at taken
  | some sync =>
      cases yielded : sync.yielded with
      | false =>
          rw [notify_idle sound held yielded] at taken
          cases taken
          exact .unheard _
      | true =>
          obtain ⟨handle, async, waiting⟩ := sound.waits task sync held yielded
          rw [notify_eq held waiting] at taken
          cases taken
          exact .heard _ task handle sync async held waiting

theorem effect_notifyId {id : Int} (sound : Sound world)
    (taken : (world.notifyId id).map Prod.fst = some next) :
    Effect world (.notifyId id) next := by
  cases listed : world.ids id with
  | none =>
      rw [notifyId_missing listed] at taken
      cases taken
      exact .unheard _
  | some task =>
      obtain ⟨sync, handle, async, held, -, -, waiting⟩ := sound.entry listed
      rw [notifyId_eq listed held waiting] at taken
      cases taken
      exact .heard _ task handle sync async held waiting

theorem effect_deliver {handle : Nat} (sound : Sound world)
    (taken : world.syncCb handle = some next) : Effect world (.deliver handle) next := by
  cases known : world.asyncs handle with
  | none => simp [World.syncCb, known] at taken
  | some async =>
      by_cases due : async.pending = true ∧ async.closing = false
      · obtain ⟨sync, held, -, called, waiting, ends⟩ := deliver_eq sound known due.1 due.2
        cases taken.symm.trans ends
        exact .delivered handle sync async held waiting called
      · simp [World.syncCb, known, due] at taken

theorem effect_cancel {task : Nat} {direct : Bool} (sound : Sound world)
    (taken : world.cancelTask task direct = some next) :
    Effect world (.cancel task direct) next := by
  cases held : world.syncs task with
  | none => simp [World.cancelTask, held] at taken
  | some sync =>
      cases yielded : sync.yielded with
      | false =>
          cases direct <;>
            simp [World.cancelTask, World.taskYieldBack, World.putSync, held, yielded] at taken
      | true =>
          obtain ⟨handle, async, waiting⟩ := sound.waits task sync held yielded
          have ends := cancelTask_eq sound held yielded waiting direct
          cases taken.symm.trans ends
          exact .cancelled task handle direct sync async held waiting

theorem step_effect {label : Label} (sound : Sound world)
    (taken : step world label = some next) : Effect world label next := by
  cases label with
  | make task id =>
      simp only [step] at taken
      split at taken
      · rename_i free
        cases taken
        exact .made task id free
      · cases taken
  | run task handle =>
      obtain ⟨sync, held, ready, free, fresh, rfl⟩ := run_cases taken
      exact .ran task handle sync held ready free fresh
  | notify task => exact effect_notify sound taken
  | notifyId id => exact effect_notifyId sound taken
  | deliver handle => exact effect_deliver sound taken
  | cancel task direct => exact effect_cancel sound taken
  | closed handle =>
      simp only [step] at taken
      split at taken
      · cases taken
      · rename_i async known
        split at taken
        · rename_i closing
          cases taken
          exact .closed handle async known closing
        · cases taken

theorem sound_step (world : World) (label : Label) (next : World) (sound : Sound world)
    (taken : step world label = some next) : Sound next := by
  cases step_effect sound taken with
  | made task id free => exact sound_make sound free
  | ran task handle sync held ready free fresh => exact sound_run sound held ready free fresh
  | heard label task handle sync async held waiting => exact sound_sent sound held waiting
  | delivered handle sync async held waiting called =>
      have yielded := (sound.waiting held waiting.owns).1
      exact sound_left sound held yielded waiting (rested_resumed waiting called) rfl rfl
  | cancelled task handle direct sync async held waiting =>
      have yielded := (sound.waiting held waiting.owns).1
      exact sound_left sound held yielded waiting (rested_cancelled waiting) rfl rfl
  | closed handle async known closing => exact sound_closed sound known closing
  | unheard label => exact sound

theorem sound_new : Sound {} := by
  refine ⟨?_, ?_, ?_, ?_, rfl⟩ <;> simp

end Steps

/-- Which task a name stands for in `sync::ids`. -/
def Suspended (world : World) (id : Int) (task : Nat) : Prop :=
  ∃ sync, world.syncs task = some sync ∧ sync.yielded = true ∧ sync.id = some id

/-- What has become of a task: it is never resumed twice or without a notification, and when it
has been notified it has been resumed or cancelled, or its callback is still to come. -/
structure Settled (world : World) (task : Nat) (sync : Sync) : Prop where
  once : sync.resumed ≤ 1
  called : 0 < sync.resumed → 0 < sync.notified
  notified : 0 < sync.notified →
    (sync.resumed = 1 ∧ sync.cancelled = 0) ∨ (sync.resumed = 0 ∧ sync.cancelled = 1) ∨
      (sync.yielded = true ∧ sync.resumed = 0 ∧ sync.cancelled = 0 ∧
        ∃ handle next, sync.async = some handle ∧ step world (.deliver handle) = some next ∧
          next.syncs task = some (resumed sync))

theorem settled_of_sound {world : World} {task : Nat} {sync : Sync} (sound : Sound world)
    (held : world.syncs task = some sync) : Settled world task sync := by
  cases yielded : sync.yielded with
  | false =>
      have rested := sound.rests task sync held yielded
      by_cases ready : sync.status = .ready
      · obtain ⟨silent, unresumed, -⟩ := rested.fresh ready
        refine ⟨by omega, rested.called, fun called => ?_⟩
        omega
      · have once := rested.once ready
        refine ⟨by omega, rested.called, fun _ => ?_⟩
        omega
  | true =>
      obtain ⟨handle, async, waiting⟩ := sound.waits task sync held yielded
      obtain ⟨unresumed, uncancelled⟩ := waiting.untouched
      refine ⟨by omega, fun again => by omega, fun called => ?_⟩
      have pending := waiting.pending.mpr called
      obtain ⟨known, again, -, -, -, ends⟩ := deliver_eq sound waiting.held pending waiting.opened
      rw [waiting.data] at again ends
      cases held.symm.trans again
      exact Or.inr (Or.inr ⟨yielded, unresumed, uncancelled, handle, _, waiting.owns, ends,
        Function.update_self ..⟩)

def Due (task handle : Nat) (world : World) : Prop :=
  Sound world ∧ ∃ sync, world.syncs task = some sync ∧ sync.async = some handle ∧
    0 < sync.notified

/-- A task has been resumed once, or cancelled instead. -/
def Over (task : Nat) (world : World) : Prop :=
  ∃ sync, world.syncs task = some sync ∧
    ((sync.resumed = 1 ∧ sync.cancelled = 0) ∨ (sync.resumed = 0 ∧ sync.cancelled = 1))

theorem due_step {task handle : Nat} (world : World) (label : Label) (next : World)
    (due : Due task handle world) (taken : step world label = some next) :
    Over task next ∨ Due task handle next := by
  obtain ⟨sound, sync, held, owns, notified⟩ := due
  obtain ⟨-, record, waits⟩ := sound.waiting held owns
  have kept := sound_step world label next sound taken
  have frame : next.syncs task = world.syncs task → Due task handle next := by
    intro same
    exact ⟨kept, sync, same.trans held, owns, notified⟩
  cases step_effect sound taken with
  | made other id free =>
      apply Or.inr
      apply frame
      apply Function.update_of_ne
      rintro rfl
      rw [free] at held
      cases held
  | ran other place fresh before ready =>
      apply Or.inr
      apply frame
      apply Function.update_of_ne
      rintro rfl
      cases held.symm.trans before
      rw [waits.status] at ready
      cases ready
  | heard _ other place found async before waiting =>
      apply Or.inr
      by_cases own : task = other
      · subst own
        cases held.symm.trans before
        exact ⟨kept, _, Function.update_self .., owns, Nat.succ_pos _⟩
      · exact frame (Function.update_of_ne own ..)
  | delivered place found async before waiting called =>
      by_cases own : task = async.data
      · rw [own]
        obtain ⟨unresumed, uncancelled⟩ := waiting.untouched
        exact Or.inl ⟨resumed found, Function.update_self ..,
          Or.inl ⟨congrArg (· + 1) unresumed, uncancelled⟩⟩
      · exact Or.inr (frame (Function.update_of_ne own ..))
  | cancelled other place direct found async before waiting =>
      by_cases own : task = other
      · subst own
        obtain ⟨unresumed, uncancelled⟩ := waiting.untouched
        exact Or.inl ⟨SyncWakeups.cancelled found, Function.update_self ..,
          Or.inr ⟨unresumed, congrArg (· + 1) uncancelled⟩⟩
      · exact Or.inr (frame (Function.update_of_ne own ..))
  | closed place async known closing => exact Or.inr (frame rfl)
  | unheard _ => exact Or.inr ⟨kept, sync, held, owns, notified⟩

theorem due_able {task handle : Nat} (world : World) (due : Due task handle world) :
    ∃ next, step world (.deliver handle) = some next ∧ Over task next := by
  obtain ⟨sound, sync, held, owns, notified⟩ := due
  obtain ⟨-, async, waiting⟩ := sound.waiting held owns
  obtain ⟨known, again, -, -, -, ends⟩ :=
    deliver_eq sound waiting.held (waiting.pending.mpr notified) waiting.opened
  rw [waiting.data] at again ends
  cases held.symm.trans again
  obtain ⟨unresumed, uncancelled⟩ := waiting.untouched
  exact ⟨_, ends, resumed sync, Function.update_self ..,
    Or.inl ⟨congrArg (· + 1) unresumed, uncancelled⟩⟩

/-- Where libuv does not hold a callback back for ever, a notified task does not stay
suspended. -/
theorem eventually_over {states : Nat → World} {labels : Nat → Label} {n task : Nat} {sync : Sync}
    (endless : Endless step states labels) (sound : Sound (states n))
    (fair : ∀ handle, Fair step states labels (.deliver handle))
    (held : (states n).syncs task = some sync) (notified : 0 < sync.notified) :
    ∃ m, n ≤ m ∧ Over task (states m) := by
  rcases (settled_of_sound sound held).notified notified with once | never | pending
  · exact ⟨n, Nat.le_refl n, sync, held, Or.inl once⟩
  · exact ⟨n, Nat.le_refl n, sync, held, Or.inr never⟩
  · obtain ⟨-, -, -, handle, -, owns, -⟩ := pending
    exact fair_leads (Due task handle) (Over task) (.deliver handle) due_step due_able endless
      (fair handle) ⟨sound, sync, held, owns, notified⟩

/-- `sync::ids` lists the suspended named tasks, `notify` finds the suspended tasks and does
nothing for the others, and every task is settled. -/
structure Notifies (world : World) : Prop where
  ids : ∀ id task, world.ids id = some task ↔ Suspended world id task
  found : ∀ task sync, world.syncs task = some sync →
    ((∃ next, world.notify task = some (next, 0)) ↔ sync.yielded = true)
  missed : ∀ task sync, world.syncs task = some sync → sync.yielded = false →
    world.notify task = some (world, -1)
  foundId : ∀ id, (∃ next, world.notifyId id = some (next, 0)) ↔ ∃ task, Suspended world id task
  missedId : ∀ id, (¬∃ task, Suspended world id task) → world.notifyId id = some (world, -1)
  settled : ∀ task sync, world.syncs task = some sync → Settled world task sync

theorem notifies_of_sound {world : World} (sound : Sound world) : Notifies world := by
  have missing : ∀ id, (¬∃ task, Suspended world id task) → world.ids id = none := by
    intro id absent
    cases listed : world.ids id with
    | none => rfl
    | some task => exact absurd ⟨task, (sound.ids id task).mp listed⟩ absent
  constructor
  case ids => exact sound.ids
  case found =>
      intro task sync held
      constructor
      · rintro ⟨next, returned⟩
        cases yielded : sync.yielded with
        | true => rfl
        | false =>
            rw [notify_idle sound held yielded] at returned
            cases returned
      · intro yielded
        obtain ⟨handle, async, waiting⟩ := sound.waits task sync held yielded
        exact ⟨_, notify_eq held waiting⟩
  case missed => exact fun task sync held => notify_idle sound held
  case foundId =>
      intro id
      constructor
      · rintro ⟨next, returned⟩
        by_contra absent
        rw [notifyId_missing (missing id absent)] at returned
        cases returned
      · rintro ⟨task, sync, held, yielded, named⟩
        obtain ⟨handle, async, waiting⟩ := sound.waits task sync held yielded
        exact ⟨_, notifyId_eq (sound.listed held yielded named) held waiting⟩
  case missedId => exact fun id absent => notifyId_missing (missing id absent)
  case settled => exact fun _ _ held => settled_of_sound sound held

/-- The notifications are as described in every state of every run; and where libuv does not hold
a callback back for ever, a task that has been notified is resumed once or cancelled. -/
theorem sync_notified :
    (∀ labels world, replay step {} labels = some world → Notifies world) ∧
    ∀ states labels, Endless step states labels → states 0 = {} →
      (∀ handle, Fair step states labels (.deliver handle)) →
      ∀ n task sync, (states n).syncs task = some sync → 0 < sync.notified →
        ∃ m, n ≤ m ∧ Over task (states m) := by
  constructor
  · intro labels world run
    exact notifies_of_sound (replay_always Sound sound_step sound_new run)
  · intro states labels endless start fair n task sync held notified
    have sound : Sound (states n) :=
      endless_always Sound sound_step endless (start ▸ sound_new) n
    exact eventually_over endless sound fair held notified

/-- A named task is notified twice and resumed, an anonymous one is notified and cancelled. -/
def twoTasks : List Label :=
  [.make 0 (some 5), .make 1 none, .run 0 100, .run 1 101, .notifyId 5, .notify 0, .notify 1,
    .cancel 1 false, .deliver 100, .closed 101]

theorem sync_notified_twoTasks : ∃ world, replay step {} twoTasks = some world ∧
    (world.syncs 0).map (fun sync => (sync.notified, sync.resumed)) = some (2, 1) ∧
    (world.syncs 1).map (fun sync => (sync.resumed, sync.cancelled)) = some (0, 1) ∧
    Notifies world := by
  have running : (replay step {} twoTasks).isSome := by decide
  refine ⟨_, (Option.some_get running).symm, by decide +revert, by decide +revert, ?_⟩
  exact sync_notified.1 twoTasks _ (Option.some_get running).symm

end Cocoflow.SyncWakeups
