import Mathlib.Logic.Function.Basic
import Cocoflow.LabelledRuns
import Cocoflow.SyncTasks

/-!
Primitives that hand memory to libuv and wait for one callback (src/getaddrinfo.cc,
src/sleep.cc, src/tcp.cc). `run` allocates a request or a handle, sets its `data` to the task
and yields; the callback finds the task through `data` and stands on it; `cancel` cuts the two
apart. A primitive says what these functions do to its own object; `__task_yield` and its
callers are common to all of them.

The code behind `__task_stand` in a callback runs when the task has given control back, so a
callback takes two steps, and the program acts in between. Neither a failed `CHECK` nor the use
of missing memory has a next state.
-/

namespace Cocoflow.PrimitiveTasks

open LabelledRuns
open SyncTasks (Status)

/-- libuv is going to call back, has called back, or has been asked to close the handle. -/
inductive Phase where
  | pending | called | closing
  deriving DecidableEq

structure Request where
  data : Option Nat
  phase : Phase := .pending
  deriving DecidableEq

structure Memory (Extra : Type) where
  requests : Nat → Option Request := fun _ => none
  extra : Extra

/-- `yielded` says that the task is inside its `__task_yield`. -/
structure Entry (Object : Type) where
  object : Object
  status : Status := .ready
  yielded : Bool := false
  resumed : Nat := 0
  cancelled : Nat := 0

/-- `run` also says whether it yields, and `callback` on whom it stands. `behind` is the code of
the callback behind `__task_stand`. -/
structure Primitive (Object Parameters Input Outcome Action Extra : Type) where
  request : Object → Option Nat
  build : Parameters → Memory Extra → Option Object
  run : Nat → Input → Object → Memory Extra → Option (Object × Memory Extra × Bool)
  back : Object → Memory Extra → Option (Object × Memory Extra)
  cancel : Object → Memory Extra → Option (Object × Memory Extra)
  callback : Nat → Outcome → (Nat → Option Object) → Memory Extra →
    Option (Memory Extra × Option (Nat × Object))
  behind : Nat → Memory Extra → Option (Memory Extra)
  act : Action → Memory Extra → Option (Memory Extra)

structure World (Object Extra : Type) where
  tasks : Nat → Option (Entry Object) := fun _ => none
  memory : Memory Extra
  signalCanceled : Bool := false
  calling : Option Nat := none

inductive Label (Parameters Input Outcome Action : Type) where
  | make (task : Nat) (parameters : Parameters)
  | destroy (task : Nat)
  | run (task : Nat) (input : Input)
  | cancel (task : Nat) (direct : Bool)
  | callback (request : Nat) (outcome : Outcome)
  | callbackEnd
  | closed (request : Nat)
  | act (action : Action)

namespace Memory

variable {Extra : Type}

def put (memory : Memory Extra) (place : Nat) (request : Option Request) : Memory Extra :=
  { memory with requests := Function.update memory.requests place request }

/-- `malloc` has returned `place`, and `data` is set behind the call of libuv. -/
def allocate (memory : Memory Extra) (place task : Nat) : Option (Memory Extra) :=
  match memory.requests place with
  | none => some (memory.put place (some { data := some task }))
  | some _ => none

def free (memory : Memory Extra) (place : Nat) : Option (Memory Extra) :=
  match memory.requests place with
  | none => none
  | some _ => some (memory.put place none)

def clearData (memory : Memory Extra) (place : Nat) : Option (Memory Extra) :=
  match memory.requests place with
  | none => none
  | some request => some (memory.put place (some { request with data := none }))

def uvClose (memory : Memory Extra) (place : Nat) : Option (Memory Extra) :=
  match memory.requests place with
  | none => none
  | some request =>
      if request.phase = .closing then none
      else some (memory.put place (some { request with phase := .closing }))

end Memory

section Machine

variable {Object Parameters Input Outcome Action Extra : Type}
  (primitive : Primitive Object Parameters Input Outcome Action Extra)

namespace World

def putTask (world : World Object Extra) (task : Nat) (entry : Entry Object) :
    World Object Extra :=
  { world with tasks := Function.update world.tasks task (some entry) }

def objects (world : World Object Extra) (task : Nat) : Option Object :=
  (world.tasks task).map Entry.object

def run (world : World Object Extra) (task : Nat) (input : Input) :
    Option (World Object Extra) :=
  match world.tasks task with
  | none => none
  | some entry =>
      if entry.status = Status.ready then
        (primitive.run task input entry.object world.memory).map fun (object, memory, yields) =>
          { world with memory := memory }.putTask task
            { entry with
              object := object
              status := if yields then .running else .completed
              yielded := yields }
      else none

/-- `__task_yield` when control comes back. With the signal up and a status that is not yet
`canceled` it throws, and whoever has called `run` sets the status and calls `cancel`. -/
def taskYieldBack (world : World Object Extra) (task : Nat) : Option (World Object Extra) :=
  match world.tasks task with
  | none => none
  | some entry =>
      if entry.yielded = false then none
      else if world.signalCanceled then
        (primitive.cancel entry.object world.memory).map fun (object, memory) =>
          { world with memory := memory, signalCanceled := false }.putTask task
            { entry with
              object := object
              status := .canceled
              yielded := false
              cancelled := entry.cancelled + 1 }
      else
        (primitive.back entry.object world.memory).map fun (object, memory) =>
          { world with memory := memory }.putTask task
            { entry with
              object := object
              status := if entry.status = Status.running then .completed else entry.status
              yielded := false
              resumed := entry.resumed + 1 }

/-- A canceller raises the signal and switches to the coroutine of a suspended task. It has set
the status of the task that it cancels, which is this one or one that awaits it. -/
def cancel (world : World Object Extra) (task : Nat) (direct : Bool) :
    Option (World Object Extra) :=
  match world.tasks task with
  | none => none
  | some entry =>
      let raised := { world with signalCanceled := true }
      if direct then (raised.putTask task { entry with status := .canceled }).taskYieldBack
        primitive task
      else raised.taskYieldBack primitive task

/-- Callbacks do not interrupt each other. -/
def callback (world : World Object Extra) (request : Nat) (outcome : Outcome) :
    Option (World Object Extra) :=
  if world.calling ≠ none then none
  else
    match primitive.callback request outcome world.objects world.memory with
    | none => none
    | some (memory, none) =>
        (primitive.behind request memory).map fun memory => { world with memory := memory }
    | some (memory, some (task, object)) =>
        match world.tasks task with
        | none => none
        | some entry =>
            ({ world with memory := memory, calling := some request }.putTask task
              { entry with object := object }).taskYieldBack primitive task

def callbackEnd (world : World Object Extra) : Option (World Object Extra) :=
  match world.calling with
  | none => none
  | some request =>
      (primitive.behind request world.memory).map fun memory =>
        { world with memory := memory, calling := none }

def closed (world : World Object Extra) (request : Nat) : Option (World Object Extra) :=
  match world.memory.requests request with
  | none => none
  | some found =>
      if world.calling = none ∧ found.phase = .closing then
        some { world with memory := world.memory.put request none }
      else none

end World

def step (world : World Object Extra) :
    Label Parameters Input Outcome Action → Option (World Object Extra)
  | .make task parameters =>
      match world.tasks task with
      | some _ => none
      | none => (primitive.build parameters world.memory).map fun object =>
          world.putTask task { object := object }
  | .destroy task =>
      match world.tasks task with
      | none => none
      | some entry =>
          if entry.yielded then none
          else some { world with tasks := Function.update world.tasks task none }
  | .run task input => world.run primitive task input
  | .cancel task direct => world.cancel primitive task direct
  | .callback request outcome => world.callback primitive request outcome
  | .callbackEnd => world.callbackEnd primitive
  | .closed request => world.closed request
  | .act action => (primitive.act action world.memory).map fun memory =>
      { world with memory := memory }

end Machine

end Cocoflow.PrimitiveTasks
