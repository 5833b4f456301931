import Mathlib.Logic.Function.Basic
import Mathlib.Data.List.Basic
import Cocoflow.LabelledRuns

/-!
The coroutine scheduler (src/cocoflow.cc, src/cocoflow-comm.h). Every task that is not
awaited runs on the coroutine of its id; an awaited task runs on the coroutine of the task
that awaits it. Control moves only by `swap_running`, between two coroutines or between a
coroutine and the event loop. A context records where a coroutine is: the task that
`__task_runtime` runs on it, the calls of `__await` on its stack, and the point reached in
the innermost task.

The bodies of user tasks are arbitrary: at the point `user` any label of the client may be
taken. The `cancel()` of a user task does nothing here. A blocking primitive arms its event
and yields once, or returns at once. What the program would do after an abort, a use after
free, or a `swap_running` whose first argument is not the running coroutine has no next
state. Ids come from the pools of `TaskPool`; here a constructor may be given any id that no
live task carries, or none.

`stamp`, `clock` and `done` do not influence the steps: they record the order in which
coroutines were taken into use and in which tasks reached the status completed.
-/

namespace Cocoflow.Scheduler

open LabelledRuns

inductive Status where
  | ready | running | completed | canceled | limited | childUnready
  deriving DecidableEq

inductive Combinator where
  | allOf | anyOf
  deriving DecidableEq

inductive Kind where
  | user
  | event
  | group (which : Combinator) (children : List Nat)
  deriving DecidableEq

/-- A task object. `none` as an id is `EVENT_LOOP_ID`, and as `completedId` it is `-1`. -/
structure Task where
  kind : Kind := .user
  reuse : Option Nat := none
  uid : Option Nat := none
  blockTo : Option Nat := none
  finishTo : Option Nat := none
  status : Status := .limited
  uninterruptable : Bool := false
  completedId : Option Nat := none
  deriving DecidableEq

/-- Who called `__task_cancel_children`: `any_of::run`, or the `cancel()` that was called by
`__task_yield`, by the handler of `__await`, by the handler of `__task_runtime`, or by the
`__task_yield` inside a waiting `__task_cancel_children`. -/
inductive CancelCaller where
  | anyRun | yield | await | runtime | cancelWait
  deriving DecidableEq

inductive YieldAt where
  | event
  | wait (count : Nat)
  | cancelWait (unsupport : Nat) (caller : CancelCaller)
  deriving DecidableEq

/-- Where a coroutine is in its innermost task. At `inStart`, `started`, `canceling` and
`yielded` it is inside `swap_running`. `goal` is the regular end of `all_of::run` or
`any_of::run`, `throwing` the way of an `interrupt_canceled` out of `run`. -/
inductive Point where
  | enter
  | user
  | inStart (target : Nat)
  | starting (i count : Nat)
  | started (i count : Nat)
  | waiting (count : Nat)
  | yielded (at_ : YieldAt)
  | cancelLoop (i unsupport : Nat) (caller : CancelCaller)
  | canceling (i unsupport : Nat) (caller : CancelCaller)
  | cancelWait (unsupport : Nat) (caller : CancelCaller)
  | goal
  | returning
  | throwing
  deriving DecidableEq

/-- A call of `__await`: `parent` is the `global_current_task` it has read. -/
structure Frame where
  parent : Nat
  target : Nat
  deriving DecidableEq

structure Context where
  base : Nat
  awaits : List Frame
  point : Point
  stamp : Nat
  deriving DecidableEq

namespace Context

/-- The tasks on the stack of a coroutine, innermost first. -/
def chain (context : Context) : List Nat := context.awaits.map Frame.target ++ [context.base]

def inner (context : Context) : Nat :=
  match context.awaits with
  | [] => context.base
  | frame :: _ => frame.target

end Context

structure State where
  tasks : Nat → Task := fun _ => {}
  live : Nat → Bool := fun _ => false
  next : Nat := 0
  manager : Nat → Option Nat := fun _ => none
  contexts : Nat → Option Context := fun _ => none
  exec : Option Nat := none
  current : Option Nat := none
  signal : Bool := false
  armed : Nat → Bool := fun _ => false
  top : Option Nat := none
  clock : Nat := 0
  done : List Nat := []

namespace State

def setTask (s : State) (t : Nat) (change : Task → Task) : State :=
  { s with tasks := Function.update s.tasks t (change (s.tasks t)) }

def setStatus (s : State) (t : Nat) (status : Status) : State :=
  s.setTask t fun task => { task with status := status }

def setContext (s : State) (k : Nat) (context : Context) : State :=
  { s with contexts := Function.update s.contexts k (some context) }

def moveTo (s : State) (k : Nat) (context : Context) (point : Point) : State :=
  s.setContext k { context with point := point }

def complete (s : State) (t : Nat) : State :=
  { s.setStatus t .completed with done := s.done ++ [t] }

end State

/-- `swap_running`. A coroutine without context is at the head of the loop in
`__task_runtime` and takes up the task that the manager shows for its id. -/
def swapRunning (s : State) (source next : Option Nat) : Option State :=
  if source ≠ s.exec then none
  else match next with
  | none => some { s with exec := none, current := none }
  | some id =>
      match s.contexts id, s.manager id with
      | some _, current => some { s with exec := some id, current := current }
      | none, none => none
      | none, some t =>
          if s.live t then
            some { (s.setStatus t .running).setContext id
                { base := t, awaits := [], point := .enter, stamp := s.clock } with
              exec := some id, current := some t, clock := s.clock + 1 }
          else none

/-- `__task_yield` up to its `swap_running`. -/
def taskYield (s : State) (k : Nat) (context : Context) (at_ : YieldAt) : Option State :=
  let cur := context.inner
  swapRunning ((s.setTask cur fun task => { task with blockTo := none }).moveTo k context
    (.yielded at_)) (s.tasks cur).uid (s.tasks cur).blockTo

/-- The end of `__task_runtime`'s loop body, behind the choice of the status. -/
def runtimeFinish (s : State) (k : Nat) (context : Context) : Option State :=
  let task := s.tasks context.base
  let next := if task.finishTo ≠ none ∨ task.blockTo = none then task.finishTo else task.blockTo
  let left := { s with contexts := Function.update s.contexts k none }
  if task.finishTo = none ∧ s.top ≠ some context.base then
    swapRunning { left with
      manager := Function.update s.manager k none
      live := Function.update s.live context.base false } (some k) next
  else swapRunning left (some k) next

/-- `__await`, with the inline `await` around it, which first gives the id away. -/
def await (s : State) (k : Nat) (context : Context) (target : Nat) : Option State :=
  if s.live target = false then none
  else
    let given := s.setTask target fun task => { task with uid := none }
    match s.current with
    | none => none
    | some parent =>
        if (s.tasks target).status ≠ .ready ∧ (s.tasks target).status ≠ .limited then some given
        else
          let from_ := given.tasks parent
          let linked := given.setTask target fun task =>
            { task with
              blockTo := from_.blockTo
              finishTo := from_.uid
              uid := from_.uid
              status := .running }
          let pushed := linked.setTask parent fun task =>
            { task with blockTo := none, reuse := some target }
          let entered : State := { pushed with current := some target }
          some (entered.setContext k
            { context with
              awaits := { parent := parent, target := target } :: context.awaits
              point := .enter })

/-- The regular end of `__await`. The status canceled belongs to an uninterruptable target
that was left to finish; the interruption then goes on behind it. -/
def awaitReturn (s : State) (k : Nat) (context : Context) (frame : Frame)
    (outer : List Frame) : State :=
  let task : Task := s.tasks frame.target
  let ended := if task.status = .running ∨ task.status = .canceled then s.complete frame.target
    else s
  let dropped := ended.setTask frame.target fun task => { task with uid := none, blockTo := none }
  let passed := dropped.setTask frame.parent fun parent =>
    { parent with
      reuse := none
      blockTo := if task.blockTo ≠ none then task.blockTo else parent.blockTo }
  let resumed : State := { passed with current := some frame.parent }
  resumed.setContext k
    { context with
      awaits := outer
      point := if task.status = .canceled then .throwing else .user }

/-- The end of the handler in `__await`: the interruption is thrown on. -/
def awaitRethrow (s : State) (k : Nat) (context : Context) (frame : Frame)
    (outer : List Frame) : State :=
  let dropped := (s.setTask frame.parent fun parent => { parent with reuse := none }).setTask
    frame.target fun task => { task with uid := none }
  let resumed : State := { dropped with current := some frame.parent }
  resumed.setContext k { context with awaits := outer, point := .throwing }

def start (s : State) (k : Nat) (context : Context) (target : Nat) : Option State :=
  if s.live target = false then none
  else match s.current with
  | none => none
  | some parent =>
      if (s.tasks target).status ≠ .ready then
        some { s with live := Function.update s.live target false }
      else
        let linked := s.setTask target fun task =>
          { task with blockTo := (s.tasks parent).uid, finishTo := none }
        swapRunning (linked.moveTo k context (.inStart target))
          (s.tasks parent).uid (s.tasks target).uid

/-- The first loop of `all_of::run` and `any_of::run`, which stops at a child that is not
ready. -/
def adoptChildren (s : State) (uid : Option Nat) : List Nat → Option (State × Bool)
  | [] => some (s, true)
  | child :: others =>
      if s.live child = false then none
      else if (s.tasks child).status ≠ .ready then some (s, false)
      else adoptChildren
        (s.setTask child fun task => { task with blockTo := uid, finishTo := uid }) uid others

/-- The walk of `__task_cancel_children` along `reuse`: the first uninterruptable task, or
that there is none. -/
def protector (s : State) : Nat → Nat → Option (Option Nat)
  | 0, _ => none
  | fuel + 1, final =>
      if (s.tasks final).uninterruptable then some (some final)
      else match (s.tasks final).reuse with
      | none => some none
      | some inner => protector s fuel inner

def cancelReturn (s : State) (k : Nat) (context : Context) : CancelCaller → Option State
  | .anyRun => some (s.moveTo k context .goal)
  | .yield => some (s.moveTo k context .returning)
  | .await =>
      match context.awaits with
      | [] => none
      | frame :: outer => some (awaitRethrow s k context frame outer)
  | .runtime => runtimeFinish s k context
  | .cancelWait => none

/-- One round of the loop of `__task_cancel_children`, or its end. -/
def cancelRound (s : State) (k : Nat) (context : Context) (children : List Nat)
    (i unsupport : Nat) (caller : CancelCaller) : Option State :=
  match children[i]? with
  | some child =>
      if s.live child = false then none
      else if (s.tasks child).status = .running then
        match protector s s.next child with
        | none => none
        | some (some final) =>
            some ((if final ≠ child then s.setStatus final .canceled else s).moveTo k context
              (.cancelLoop (i + 1) (unsupport + 1) caller))
        | some none =>
            swapRunning ({ s.setStatus child .canceled with signal := true }.moveTo k context
              (.canceling i unsupport caller)) (s.tasks context.inner).uid (s.tasks child).uid
      else some (s.moveTo k context (.cancelLoop (i + 1) unsupport caller))
  | none =>
      if unsupport = 0 then cancelReturn s k context caller
      else some ((s.setTask context.inner fun task =>
        { task with uninterruptable := true }).moveTo k context (.cancelWait unsupport caller))

/-- `cancel()` of the innermost task, called by `__task_yield` or by a handler. -/
def cancelTask (s : State) (k : Nat) (context : Context) (caller : CancelCaller) :
    Option State :=
  match (s.tasks context.inner).kind with
  | .user => cancelReturn s k context caller
  | .event =>
      cancelReturn { s with armed := Function.update s.armed context.inner false } k context caller
  | .group _ _ => some (s.moveTo k context (.cancelLoop 0 0 caller))

/-- `run` has returned: the end of `__await`, or of the loop body of `__task_runtime`. -/
def runReturn (s : State) (k : Nat) (context : Context) : Option State :=
  match context.awaits with
  | frame :: outer => some (awaitReturn s k context frame outer)
  | [] =>
      if (s.tasks context.base).status = .running then
        runtimeFinish (s.complete context.base) k context
      else runtimeFinish s k context

def runThrow (s : State) (k : Nat) (context : Context) : Option State :=
  cancelTask (s.setStatus context.inner .canceled) k context
    (if context.awaits = [] then .runtime else .await)

/-- `__task_yield` behind its `swap_running`, and what its caller does with the result. -/
def yieldReturn (s : State) (k : Nat) (context : Context) (at_ : YieldAt) : Option State :=
  let cur := context.inner
  if s.signal then
    let consumed := { s with signal := false }
    if (s.tasks cur).status ≠ .canceled then
      let interrupted := consumed.setStatus cur .canceled
      match at_, context.awaits with
      | .cancelWait _ .await, _ :: outer =>
          some (interrupted.setContext k { context with awaits := outer, point := .throwing })
      | .cancelWait _ .await, [] => none
      | .cancelWait _ .runtime, _ => none
      | .cancelWait _ .cancelWait, _ => none
      | _, _ => some (interrupted.moveTo k context .throwing)
    else match at_ with
    | .cancelWait _ _ => cancelTask consumed k context .cancelWait
    | _ => cancelTask consumed k context .yield
  else match at_ with
  | .event => some (s.moveTo k context .returning)
  | .cancelWait unsupport caller =>
      some (s.moveTo k context (.cancelWait (unsupport - 1) caller))
  | .wait count =>
      match (s.tasks cur).kind with
      | .group .allOf _ => some (s.moveTo k context (.waiting (count - 1)))
      | .group .anyOf children =>
          some ((s.setTask cur fun task => { task with
            completedId := children.findIdx? fun child =>
              (s.tasks child).status = .completed }).moveTo k context (.cancelLoop 0 0 .anyRun))
      | _ => none

/-- `all_of::run` and `any_of::run` from their first statement to their first switch. -/
def runGroup (s : State) (k : Nat) (context : Context) (children : List Nat) : Option State :=
  match adoptChildren s (s.tasks context.inner).uid children with
  | none => none
  | some (adopted, true) => some (adopted.moveTo k context (.starting 0 children.length))
  | some (adopted, false) =>
      some ((adopted.setStatus context.inner .childUnready).moveTo k context .returning)

def groupStep (s : State) (k : Nat) (context : Context) (which : Combinator)
    (children : List Nat) : Point → Option State
  | .starting i count =>
      match children[i]? with
      | none => some (s.moveTo k context (.waiting count))
      | some child =>
          if s.live child then
            swapRunning (s.moveTo k context (.started i count))
              (s.tasks context.inner).uid (s.tasks child).uid
          else none
  | .started i count =>
      match children[i]? with
      | none => none
      | some child =>
          if s.live child = false then none
          else if (s.tasks child).status = .completed then
            match which with
            | .allOf => some (s.moveTo k context (.starting (i + 1) (count - 1)))
            | .anyOf => some ((s.setTask context.inner fun task =>
                { task with completedId := some i }).moveTo k context (.waiting count))
          else some (s.moveTo k context (.starting (i + 1) count))
  | .waiting count =>
      match which with
      | .allOf =>
          if count = 0 then some (s.moveTo k context .goal)
          else taskYield s k context (.wait count)
      | .anyOf =>
          if (s.tasks context.inner).completedId = none then taskYield s k context (.wait count)
          else some (s.moveTo k context (.cancelLoop 0 0 .anyRun))
  | .cancelLoop i unsupport caller => cancelRound s k context children i unsupport caller
  | .canceling i unsupport caller =>
      some (s.moveTo k context (.cancelLoop (i + 1) unsupport caller))
  | .cancelWait unsupport caller =>
      if unsupport = 0 then cancelReturn s k context caller
      else taskYield s k context (.cancelWait unsupport caller)
  | .goal => some (s.moveTo k context .returning)
  | _ => none

/-- What the program may do next. `tau` is the next step of the library; `block` and `skip`
are the two ways of a blocking primitive; `event` is the callback of an armed primitive; the
others are statements of a user body, or of `main` before `cocoflow`. -/
inductive Label where
  | tau
  | block
  | skip
  | await (target : Nat)
  | start (target : Nat)
  | ret
  | construct (kind : Kind) (uid : Option Nat)
  | destroy (target : Nat)
  | uninterruptable (target : Nat)
  | event (task : Nat)
  | cocoflow (task : Nat)
  deriving DecidableEq

def construct (s : State) (kind : Kind) : Option Nat → Option State
  | none => some { s with
      tasks := Function.update s.tasks s.next { kind := kind }
      live := Function.update s.live s.next true
      next := s.next + 1 }
  | some id =>
      if ∃ t < s.next, s.live t ∧ (s.tasks t).uid = some id then none
      else some { s with
        tasks := Function.update s.tasks s.next { kind := kind, uid := some id, status := .ready }
        live := Function.update s.live s.next true
        manager := Function.update s.manager id (some s.next)
        next := s.next + 1 }

/-- Statements that only touch task objects. The constructors of `all_of` and `any_of` abort
without children. -/
def objectStep (s : State) : Label → Option State
  | .construct (.group _ []) _ => none
  | .construct kind uid => construct s kind uid
  | .destroy target =>
      if s.live target then some { s with live := Function.update s.live target false } else none
  | .uninterruptable target =>
      if s.live target then
        some (s.setTask target fun task => { task with uninterruptable := true })
      else none
  | _ => none

def userStep (s : State) (k : Nat) (context : Context) : Label → Option State
  | .await target => await s k context target
  | .start target => start s k context target
  | .ret => some (s.moveTo k context .returning)
  | label => objectStep s label

def coroutineStep (s : State) (k : Nat) (context : Context) : Option State :=
  match context.point, (s.tasks context.inner).kind with
  | .enter, .user => some (s.moveTo k context .user)
  | .enter, .group _ children => runGroup s k context children
  | .inStart _, _ => some (s.moveTo k context .user)
  | .yielded at_, _ => yieldReturn s k context at_
  | .returning, _ => runReturn s k context
  | .throwing, _ => runThrow s k context
  | point, .group which children => groupStep s k context which children point
  | _, _ => none

/-- One step while coroutine `k` runs. The objects of an interrupted body are destroyed
while the interruption passes. -/
def contextStep (s : State) (k : Nat) (context : Context) (label : Label) : Option State :=
  match label, context.point, (s.tasks context.inner).kind with
  | .tau, _, _ => coroutineStep s k context
  | .block, .enter, .event =>
      taskYield { s with armed := Function.update s.armed context.inner true } k context .event
  | .skip, .enter, .event => some (s.moveTo k context .returning)
  | .destroy target, .throwing, .user => objectStep s (.destroy target)
  | label, .user, .user => userStep s k context label
  | _, _, _ => none

def loopStep (s : State) : Label → Option State
  | .event t =>
      if s.armed t ∧ s.live t then
        swapRunning { s with armed := Function.update s.armed t false } none (s.tasks t).uid
      else none
  | .cocoflow t =>
      if s.top = none ∧ s.live t then
        swapRunning { s.setTask t fun task => { task with blockTo := none, finishTo := none } with
          top := some t } none (s.tasks t).uid
      else none
  | label => if s.top = none then objectStep s label else none

def step (s : State) (label : Label) : Option State :=
  match s.exec with
  | none => loopStep s label
  | some k =>
      match s.contexts k with
      | none => none
      | some context => contextStep s k context label

end Cocoflow.Scheduler
