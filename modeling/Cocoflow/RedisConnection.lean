import Mathlib.Logic.Function.Basic
import Cocoflow.LabelledRuns

/-!
The connection of an auto-connecting `redis` object (extensions/redis/cocoflow-redis.cc). One
`timer` field serves the connect timeout and the reconnect back-off. hiredis calls the connect
callback of a context once, frees the context behind a failure or a disconnect, and calls the
disconnect callback only if it was connected. libuv calls a timer back once, unless it is closed.

Contexts and timers are numbered as they are made. The user's callbacks are only for monitoring
and are left out. A failed `CHECK` has no next state, and neither has the code where it writes to a
context that hiredis has freed and frees it again.
-/

namespace Cocoflow.RedisConnection

def reconnectIntervalMin : Nat := 10

def reconnectIntervalMax : Nat := 10000

inductive TimerCallback where
  | connectTimeout | reconnectNext
  deriving DecidableEq

inductive TimerEvent where
  | started (timer : Nat) (callback : TimerCallback) (after : Nat)
  | called (timer : Nat)
  | closed (timer : Nat)
  deriving DecidableEq

def TimerEvent.timer : TimerEvent → Nat
  | .started timer _ _ => timer
  | .called timer => timer
  | .closed timer => timer

/-- A `redisAsyncContext`. `data` says that its `data` is the object and not `NULL`, `attached`
that the callbacks are set. -/
structure Context where
  data : Bool
  attached : Bool
  connected : Bool := false
  deriving DecidableEq

structure Redis where
  context : Option Nat := none
  timer : Option Nat := none
  curReconnectInterval : Nat := 0
  timeout : Nat := 0
  oldOpened : Bool := false

/-- `contexts` has those that hiredis has not freed, and `pending` the timers that libuv will call
back. `freeing` is set inside the `redisAsyncFree` of `auto_reconnect_next_cb`. The last event
comes first. -/
structure World where
  redis : Redis := {}
  destroyed : Bool := false
  contexts : Nat → Option Context := fun _ => none
  contextCount : Nat := 0
  pending : Nat → Option TimerCallback := fun _ => none
  timerCount : Nat := 0
  freeing : Bool := false
  events : List TimerEvent := []

namespace World

def startTimer (world : World) (callback : TimerCallback) (after : Nat) : World :=
  { world with
    redis := { world.redis with timer := some world.timerCount }
    pending := Function.update world.pending world.timerCount (some callback)
    timerCount := world.timerCount + 1
    events := .started world.timerCount callback after :: world.events }

def uvClose (world : World) (timer : Nat) : World :=
  { world with
    pending := Function.update world.pending timer none
    events := .closed timer :: world.events }

def closeTimer (world : World) : Option World :=
  match world.redis.timer with
  | none => none
  | some timer => some (world.uvClose timer)

/-- `connect_now`. `refused` is an error of `redisAsyncConnect`. -/
def connectNow (world : World) (alwaysReturnZero refused : Bool) : Option World :=
  let connecting : World :=
    { world with
      redis := { world.redis with context := some world.contextCount }
      contexts := Function.update world.contexts world.contextCount
        (some { data := !refused, attached := !refused })
      contextCount := world.contextCount + 1 }
  if refused then
    if alwaysReturnZero then none else some connecting
  else some (connecting.startTimer .connectTimeout connecting.redis.timeout)

def nextInterval (curReconnectInterval : Nat) : Nat :=
  let next := if curReconnectInterval = 0 then reconnectIntervalMin else curReconnectInterval * 2
  if next > reconnectIntervalMax then reconnectIntervalMax else next

def connectComing (world : World) (oldOpened : Bool) : World :=
  let interval := nextInterval world.redis.curReconnectInterval
  ({ world with
      redis := { world.redis with
        oldOpened := oldOpened
        curReconnectInterval := interval } } : World).startTimer .reconnectNext interval

def autoConnectCb (world : World) (succeeded : Bool) : Option World :=
  world.closeTimer.map fun world =>
    if succeeded then { world with redis := { world.redis with curReconnectInterval := 0 } }
    else world.connectComing true

def autoConnectClosedCb (world : World) (data : Bool) : World :=
  if data then world.connectComing false else world

def autoConnectTimeoutCb (world : World) : Option World :=
  world.closeTimer.map fun world => world.connectComing true

/-- `data = NULL` and `redisAsyncFree` for the context of the object. -/
def freeContext (world : World) : Option World :=
  match world.redis.context with
  | none => none
  | some context =>
      match world.contexts context with
      | none => none
      | some old =>
          let world := { world with contexts := Function.update world.contexts context none }
          some (if old.connected then world.autoConnectClosedCb false else world)

/-- `auto_reconnect_next_cb`. Where it frees the old context, hiredis calls back for its pending
commands, and the tasks that wait for them run on before it goes on. -/
def autoReconnectNextCb (world : World) (refused : Bool) : Option World :=
  world.closeTimer.bind fun world =>
    if world.redis.oldOpened then world.freeContext.map fun world => { world with freeing := true }
    else world.connectNow true refused

/-- `~redis`. Inside the `redisAsyncFree` of `auto_reconnect_next_cb` the context is still there,
and hiredis only notes that it is to be freed. -/
def destroy (world : World) : Option World :=
  match world.redis.context with
  | none => some { world with destroyed := true }
  | some _ =>
      (if world.freeing then some world else world.freeContext).map fun freed =>
        let world := { freed with destroyed := true }
        match world.redis.timer with
        | none => world
        | some timer => world.uvClose timer

/-- hiredis has found out whether the connection of a context was made. -/
def connectResult (world : World) (context : Nat) (succeeded : Bool) : Option World :=
  match world.contexts context with
  | none => none
  | some found =>
      if found.attached = true ∧ found.connected = false ∧ found.data = true then
        (world.autoConnectCb succeeded).map fun world =>
          { world with
            contexts := Function.update world.contexts context
              (if succeeded then some { found with connected := true } else none) }
      else none

/-- A connected context is closed by its peer, or by an error. -/
def disconnect (world : World) (context : Nat) : Option World :=
  match world.contexts context with
  | none => none
  | some found =>
      if found.connected then
        some (({ world with contexts := Function.update world.contexts context none } :
          World).autoConnectClosedCb found.data)
      else none

def expire (world : World) (timer : Nat) (refused : Bool) : Option World :=
  match world.pending timer with
  | none => none
  | some callback =>
      let world :=
        { world with
          pending := Function.update world.pending timer none
          events := .called timer :: world.events }
      match callback with
      | .connectTimeout => world.autoConnectTimeoutCb
      | .reconnectNext => world.autoReconnectNextCb refused

end World

inductive Label where
  | autoConnect (timeout : Nat) (refused : Bool)
  | connectResult (context : Nat) (succeeded : Bool)
  | disconnect (context : Nat)
  | expire (timer : Nat) (refused : Bool)
  | freed (refused : Bool)
  | destroy

/-- Inside the `redisAsyncFree` of `auto_reconnect_next_cb` the loop makes no other call, but a
task can destroy the object. -/
def step (world : World) : Label → Option World
  | .autoConnect timeout refused =>
      if world.destroyed = true ∨ world.redis.context.isSome ∨ timeout = 0 then none
      else ({ world with redis := { world.redis with timeout := timeout } } : World).connectNow
        false refused
  | .connectResult context succeeded =>
      if world.freeing then none else world.connectResult context succeeded
  | .disconnect context => if world.freeing then none else world.disconnect context
  | .expire timer refused => if world.freeing then none else world.expire timer refused
  | .freed refused =>
      if world.freeing = true ∧ world.destroyed = false then
        ({ world with freeing := false } : World).connectNow true refused
      else none
  | .destroy => if world.destroyed then none else world.destroy

end Cocoflow.RedisConnection
