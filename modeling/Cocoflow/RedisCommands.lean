import Mathlib.Logic.Function.Basic
import Cocoflow.LabelledRuns

/-!
`redis::command` tasks and their replies (extensions/redis/cocoflow-redis.cc). The constructor
submits the command together with a heap cell that points to the task, and `command_cb` finds the
task through that cell. hiredis calls `command_cb` once for every command that it accepts, from the
event loop, where all tasks are suspended.

Tasks and cells are named once and for all, also where an address is used again. What is wrong
is recorded in `faults`; a label that cannot happen has no next state.
-/

namespace Cocoflow.RedisCommands

def redisUnfinished : Int := -2

def redisErr : Int := -1

def redisOk : Int := 0

/-- `ready` stands for `limited` as well: both can be run. -/
inductive Status where
  | ready | running | completed | canceled
  deriving DecidableEq

/-- `ret` and `reply` are the variables of the user, unless he passes `NULL`; a reply is named by
a number. `answers` records what the task was resumed with. -/
structure Command where
  req : Option Nat
  redisErr : Int
  ret : Option Int
  reply : Option (Option Nat)
  status : Status := .ready
  destroyed : Bool := false
  answers : List (Option Nat) := []
  deriving DecidableEq

/-- `content` is the pointer in the cell. `pending` says that hiredis still has to call
`command_cb`, and `replied` with what it has called it. -/
structure Cell where
  owner : Nat
  content : Option Nat
  freed : Bool := false
  pending : Bool := false
  replied : Option (Option Nat) := none
  deriving DecidableEq

inductive Fault where
  | freedCell (cell : Nat)
  | destroyedTask (task : Nat)
  | check (task : Nat)
  deriving DecidableEq

/-- `inside` is the cell whose `command_cb` has resumed its task and not got control back. -/
structure World where
  commands : Nat → Option Command := fun _ => none
  cells : Nat → Option Cell := fun _ => none
  inside : Option Nat := none
  faults : List Fault := []

namespace World

def putCommand (world : World) (task : Nat) (command : Command) : World :=
  { world with commands := Function.update world.commands task (some command) }

def putCell (world : World) (place : Nat) (cell : Cell) : World :=
  { world with cells := Function.update world.cells place (some cell) }

def fault (world : World) (fault : Fault) : World :=
  { world with faults := fault :: world.faults }

/-- Every access to a cell goes through this. -/
def useCell (world : World) (place : Nat) (cell : Cell) : World :=
  if cell.freed then world.fault (.freedCell place) else world

def clearCell (world : World) (place : Nat) : Option World :=
  match world.cells place with
  | none => none
  | some cell => some ((world.useCell place cell).putCell place { cell with content := none })

def freeCell (world : World) (place : Nat) : Option World :=
  match world.cells place with
  | none => none
  | some cell => some ((world.useCell place cell).putCell place { cell with freed := true })

/-- The constructors. `err` is what hiredis returns for the command. -/
def construct (world : World) (task place : Nat) (ret reply : Bool) (err : Int) : Option World :=
  match world.commands task, world.cells place with
  | none, none =>
      let command : Command :=
        { req := if err ≠ redisOk then none else some place
          redisErr := err
          ret := if ret then some redisUnfinished else none
          reply := if reply then some none else none }
      let cell : Cell :=
        { owner := task
          content := some task
          freed := err ≠ redisOk
          pending := err = redisOk }
      some ((world.putCommand task command).putCell place cell)
  | _, _ => none

def run (world : World) (task : Nat) : Option World :=
  match world.commands task with
  | none => none
  | some command =>
      if command.status = .ready ∧ command.destroyed = false then
        if command.redisErr ≠ redisOk then
          some (world.putCommand task { command with
            ret := command.ret.map fun _ => command.redisErr
            status := .completed })
        else
          match command.req with
          | none => none
          | some place =>
              match world.cells place with
              | none => none
              | some cell =>
                  let read := world.useCell place cell
                  let checked := if cell.content = none then read.fault (.check task) else read
                  some (checked.putCommand task { command with status := .running })
      else none

def runBack (world : World) (task : Nat) : Option World :=
  match world.commands task with
  | none => none
  | some command =>
      match command.req with
      | none => none
      | some place => (world.clearCell place).map fun world =>
          world.putCommand task { command with status := .completed }

/-- `cancel`, called for a task whose yield has returned false. -/
def cancel (world : World) (task : Nat) : Option World :=
  match world.commands task with
  | none => none
  | some command =>
      if command.status = .running then
        match command.req with
        | none => none
        | some place => (world.clearCell place).map fun world =>
            world.putCommand task { command with status := .canceled }
      else none

/-- What `command_cb` writes for a reply `r` before it resumes the task. -/
def answered (command : Command) (r : Option Nat) : Command :=
  match r with
  | some reply => { command with
      reply := command.reply.map fun _ => some reply
      ret := command.ret.map fun _ => redisOk
      answers := command.answers ++ [some reply] }
  | none => { command with
      ret := command.ret.map fun _ => RedisCommands.redisErr
      answers := command.answers ++ [none] }

/-- `command_cb`. With a running task it gets control back at `returned` only. -/
def commandCb (world : World) (place : Nat) (r : Option Nat) : Option World :=
  match world.cells place with
  | none => none
  | some cell =>
      let read := world.useCell place cell
      match cell.content with
      | none => read.freeCell place
      | some task =>
          match world.commands task with
          | none => none
          | some command =>
              let found := if command.destroyed then read.fault (.destroyedTask task) else read
              if command.status = .running then
                ((found.putCommand task (answered command r)).runBack task).map fun world =>
                  { world with inside := some place }
              else (found.clearCell place).bind fun world => world.freeCell place

def destroy (world : World) (task : Nat) : Option World :=
  match world.commands task with
  | none => none
  | some command =>
      if command.status ≠ .running ∧ command.destroyed = false then
        some (world.putCommand task { command with destroyed := true })
      else none

/-- hiredis takes the callback of a command off its list and calls it. -/
def deliver (world : World) (place : Nat) (r : Option Nat) : Option World :=
  match world.cells place with
  | none => none
  | some cell =>
      if cell.pending = true ∧ world.inside = none then
        (world.putCell place { cell with pending := false, replied := some r }).commandCb place r
      else none

/-- Control comes back to `command_cb`, which frees the cell. -/
def returned (world : World) : Option World :=
  match world.inside with
  | none => none
  | some place => ({ world with inside := none } : World).freeCell place

end World

/-- `run` stands for `await` and `start`. -/
inductive Label where
  | construct (task place : Nat) (ret reply : Bool) (err : Int)
  | run (task : Nat)
  | cancel (task : Nat)
  | destroy (task : Nat)
  | reply (place : Nat) (r : Option Nat)
  | returned

def step (world : World) : Label → Option World
  | .construct task place ret reply err => world.construct task place ret reply err
  | .run task => world.run task
  | .cancel task => world.cancel task
  | .destroy task => world.destroy task
  | .reply place r => world.deliver place r
  | .returned => world.returned

end Cocoflow.RedisCommands
