import Mathlib.Logic.Function.Basic
import Cocoflow.LabelledRuns

/-!
`sync` tasks and their `uv_async_t` handles (src/sync.cc). A task that has run up to its
`__task_yield` gets control back from `sync_cb`, or from a canceller that has raised
`global_signal_canceled`. A notification only marks the handle: libuv calls `sync_cb` later, once
for all the notifications in between, and never behind `uv_close`.

Objects and handles are kept by their addresses. Neither a failed `CHECK` nor the use of a missing
or closed handle has a next state. The last three fields of a task count what has happened to it.
-/

namespace Cocoflow.SyncTasks

inductive Status where
  | ready | running | completed | canceled
  deriving DecidableEq

/-- `id` is that of a named task. `yielded` says that the task is inside its `__task_yield`. -/
structure Sync where
  id : Option Int
  async : Option Nat := none
  status : Status := .ready
  yielded : Bool := false
  notified : Nat := 0
  resumed : Nat := 0
  cancelled : Nat := 0
  deriving DecidableEq

structure Async where
  data : Nat
  pending : Bool := false
  closing : Bool := false
  deriving DecidableEq

structure World where
  syncs : Nat → Option Sync := fun _ => none
  ids : Int → Option Nat := fun _ => none
  asyncs : Nat → Option Async := fun _ => none
  signalCanceled : Bool := false

namespace World

def putSync (world : World) (task : Nat) (sync : Sync) : World :=
  { world with syncs := Function.update world.syncs task (some sync) }

def putAsync (world : World) (handle : Nat) (async : Async) : World :=
  { world with asyncs := Function.update world.asyncs handle (some async) }

/-- `malloc` has returned `handle`, and `data` is set behind `uv_async_init`. -/
def uvAsyncInit (world : World) (handle data : Nat) : Option World :=
  match world.asyncs handle with
  | none => some (world.putAsync handle { data := data })
  | some _ => none

def uvAsyncSend (world : World) (handle : Nat) : Option World :=
  match world.asyncs handle with
  | none => none
  | some async =>
      if async.closing then none else some (world.putAsync handle { async with pending := true })

def uvClose (world : World) (handle : Nat) : Option World :=
  match world.asyncs handle with
  | none => none
  | some async =>
      if async.closing then none else some (world.putAsync handle { async with closing := true })

def insertId (world : World) (task : Nat) : Option Int → Option World
  | none => some world
  | some id =>
      match world.ids id with
      | none => some { world with ids := Function.update world.ids id (some task) }
      | some _ => none

/-- `sync::ids.erase(this->pos)`: the iterator is the entry of the task itself. -/
def eraseId (world : World) (task : Nat) : Option Int → Option World
  | none => some world
  | some id =>
      if world.ids id = some task then
        some { world with ids := Function.update world.ids id none }
      else none

def run (world : World) (task handle : Nat) : Option World :=
  match world.syncs task with
  | none => none
  | some sync =>
      if sync.status = .ready then
        (world.insertId task sync.id).bind fun world =>
          (world.uvAsyncInit handle task).map fun world =>
            world.putSync task
              { sync with async := some handle, status := .running, yielded := true }
      else none

/-- The last three statements of `sync::run`, which `sync::cancel` repeats. -/
def release (world : World) (task : Nat) : Option World :=
  match world.syncs task with
  | none => none
  | some sync =>
      match sync.async with
      | none => none
      | some handle =>
          (world.eraseId task sync.id).bind fun world =>
            (world.uvClose handle).map fun world => world.putSync task { sync with async := none }

/-- `sync::run` behind its yield; `__task_runtime` and `__await` set the status of a task that has
run. -/
def runBack (world : World) (task : Nat) : Option World :=
  (world.release task).bind fun world =>
    (world.syncs task).map fun sync =>
      world.putSync task (if sync.status = .running then { sync with status := .completed } else sync)

def cancel (world : World) (task : Nat) : Option World := world.release task

/-- `__task_yield` when control comes back. With the signal up and a status that is not yet
`canceled` it throws, and whoever has called `run` sets the status and calls `cancel`. -/
def taskYieldBack (world : World) (task : Nat) : Option World :=
  match world.syncs task with
  | none => none
  | some sync =>
      if sync.yielded = false then none
      else if world.signalCanceled then
        let world := { world with signalCanceled := false }
        let left := { sync with yielded := false, cancelled := sync.cancelled + 1 }
        if sync.status ≠ .canceled then
          (world.putSync task { left with status := .canceled }).cancel task
        else (world.putSync task left).cancel task
      else
        (world.putSync task { sync with yielded := false, resumed := sync.resumed + 1 }).runBack task

/-- `sync_cb`, called for a handle with a pending notification. -/
def syncCb (world : World) (handle : Nat) : Option World :=
  match world.asyncs handle with
  | none => none
  | some async =>
      if async.pending = true ∧ async.closing = false then
        (world.putAsync handle { async with pending := false }).taskYieldBack async.data
      else none

/-- A canceller raises the signal and switches to the coroutine of a suspended task. It has set
the status of the task that it cancels, which is this one or one that awaits it. -/
def cancelTask (world : World) (task : Nat) (direct : Bool) : Option World :=
  match world.syncs task with
  | none => none
  | some sync =>
      let world := { world with signalCanceled := true }
      if direct then (world.putSync task { sync with status := .canceled }).taskYieldBack task
      else world.taskYieldBack task

def notify (world : World) (task : Nat) : Option (World × Int) :=
  match world.syncs task with
  | none => none
  | some sync =>
      match sync.async with
      | some handle => (world.uvAsyncSend handle).map fun world =>
          (world.putSync task { sync with notified := sync.notified + 1 }, 0)
      | none => some (world, -1)

def notifyId (world : World) (id : Int) : Option (World × Int) :=
  match world.ids id with
  | none => some (world, -1)
  | some task =>
      match world.syncs task with
      | none => none
      | some sync =>
          match sync.async with
          | none => none
          | some handle => (world.uvAsyncSend handle).map fun world =>
              (world.putSync task { sync with notified := sync.notified + 1 }, 0)

end World

/-- `closed` is the callback of `uv_close`, which frees the handle. -/
inductive Label where
  | make (task : Nat) (id : Option Int)
  | run (task handle : Nat)
  | notify (task : Nat)
  | notifyId (id : Int)
  | deliver (handle : Nat)
  | cancel (task : Nat) (direct : Bool)
  | closed (handle : Nat)

def step (world : World) : Label → Option World
  | .make task id =>
      match world.syncs task with
      | none => some (world.putSync task { id := id })
      | some _ => none
  | .run task handle => world.run task handle
  | .notify task => (world.notify task).map Prod.fst
  | .notifyId id => (world.notifyId id).map Prod.fst
  | .deliver handle => world.syncCb handle
  | .cancel task direct => world.cancelTask task direct
  | .closed handle =>
      match world.asyncs handle with
      | none => none
      | some async =>
          if async.closing then
            some { world with asyncs := Function.update world.asyncs handle none }
          else none

end Cocoflow.SyncTasks
