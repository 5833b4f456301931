import Mathlib.Logic.Function.Basic
import Mathlib.Data.List.Basic
import Cocoflow.Scheduler

/-!
The scheduler without ids: what `await`, `start` and the combinators are for. A thread goes
by the name of the task that it was made for, and remembers the threads to which its next
yield and its end lead. A task is new until its `run` begins, whether or not a pool had an id
for it, and becomes a thread when it is started. The functions are those of
`Scheduler`, as far as properly nested control needs them.
-/

namespace Cocoflow.ThreadScheduler

open LabelledRuns Scheduler

/-- A task object without its ids. The status of a new task is `ready`. -/
structure Job where
  kind : Kind
  reuse : Option Nat
  status : Status
  uninterruptable : Bool
  completedId : Option Nat

structure Thread where
  context : Context
  blockTo : Option Nat
  finishTo : Option Nat

@[ext]
structure Machine where
  jobs : Nat → Job
  live : Nat → Bool
  next : Nat
  threads : Nat → Option Thread
  exec : Option Nat
  current : Option Nat
  signal : Bool
  armed : Nat → Bool
  top : Option Nat
  clock : Nat
  done : List Nat

namespace Machine

def setJob (m : Machine) (t : Nat) (change : Job → Job) : Machine :=
  { m with jobs := Function.update m.jobs t (change (m.jobs t)) }

def setStatus (m : Machine) (t : Nat) (status : Status) : Machine :=
  m.setJob t fun job => { job with status := status }

def setThread (m : Machine) (thread : Thread) : Machine :=
  { m with threads := Function.update m.threads thread.context.base (some thread) }

def moveTo (m : Machine) (thread : Thread) (point : Point) : Machine :=
  m.setThread { thread with context := { thread.context with point := point } }

def complete (m : Machine) (t : Nat) : Machine :=
  { m.setStatus t .completed with done := m.done ++ [t] }

@[simp] theorem setJob_id (m : Machine) (t : Nat) : m.setJob t id = m := by
  unfold setJob
  rw [id, Function.update_eq_self]

@[simp] theorem setThread_setThread (m : Machine) {before after : Thread}
    (same : before.context.base = after.context.base) :
    (m.setThread before).setThread after = m.setThread after := by
  unfold setThread
  rw [same, Function.update_idem]

def running (m : Machine) : Option Thread := m.exec.bind m.threads

def host (m : Machine) (t : Nat) : Option Nat :=
  (List.range m.next).find? fun base =>
    (m.threads base).any fun thread => thread.context.inner = t

def switchTo (m : Machine) : Option Nat → Option Machine
  | none => some { m with exec := none, current := none }
  | some base =>
      if (m.threads base).isSome then some { m with exec := some base, current := some base }
      else none

theorem switchTo_some {m : Machine} {base : Nat} (there : (m.threads base).isSome = true) :
    m.switchTo (some base) = some { m with exec := some base, current := some base } :=
  if_pos there

def launch (m : Machine) (t : Nat) (blockTo finishTo : Option Nat) : Option Machine :=
  if m.live t then
    let context : Context := { base := t, awaits := [], point := .enter, stamp := m.clock }
    some { (m.setStatus t .running).setThread ⟨context, blockTo, finishTo⟩ with
      exec := some t, current := some t, clock := m.clock + 1 }
  else none

def yield (m : Machine) (thread : Thread) (at_ : YieldAt) : Option Machine :=
  (m.moveTo { thread with blockTo := none } (.yielded at_)).switchTo thread.blockTo

/-- The end of a thread. A task that was started, other than the top task, is deleted. -/
def finish (m : Machine) (thread : Thread) : Option Machine :=
  let base := thread.context.base
  let next := if thread.finishTo ≠ none ∨ thread.blockTo = none then thread.finishTo
    else thread.blockTo
  let left := { m with threads := Function.update m.threads base none }
  if thread.finishTo = none ∧ m.top ≠ some base then
    switchTo { left with live := Function.update m.live base false } next
  else switchTo left next

def await (m : Machine) (thread : Thread) (target : Nat) : Option Machine :=
  if m.live target = false then none
  else match m.current with
  | none => none
  | some parent =>
      if (m.jobs target).status ≠ .ready then some m
      else
        let begun := m.setStatus target .running
        let pushed := begun.setJob parent fun job => { job with reuse := some target }
        let entered : Machine := { pushed with current := some target }
        some (entered.setThread { thread with
          context := { thread.context with
            awaits := { parent := parent, target := target } :: thread.context.awaits
            point := .enter } })

def awaitReturn (m : Machine) (thread : Thread) (frame : Frame) (outer : List Frame) :
    Machine :=
  let job : Job := m.jobs frame.target
  let ended := if job.status = .running ∨ job.status = .canceled then m.complete frame.target
    else m
  let passed := ended.setJob frame.parent fun parent => { parent with reuse := none }
  let resumed : Machine := { passed with current := some frame.parent }
  resumed.setThread { thread with
    context := { thread.context with
      awaits := outer
      point := if job.status = .canceled then .throwing else .user } }

def awaitRethrow (m : Machine) (thread : Thread) (frame : Frame) (outer : List Frame) :
    Machine :=
  let dropped := m.setJob frame.parent fun parent => { parent with reuse := none }
  let resumed : Machine := { dropped with current := some frame.parent }
  resumed.setThread { thread with
    blockTo := none
    context := { thread.context with awaits := outer, point := .throwing } }

def start (m : Machine) (thread : Thread) (target : Nat) : Option Machine :=
  if m.live target = false then none
  else if m.current = none then none
  else if (m.jobs target).status ≠ .ready then
    some { m with live := Function.update m.live target false }
  else (m.moveTo thread (.inStart target)).launch target (some thread.context.base) none

def adopts (m : Machine) : List Nat → Option Bool
  | [] => some true
  | child :: others =>
      if m.live child = false then none
      else if (m.jobs child).status ≠ .ready then some false
      else adopts m others

theorem adopts_congr {m m' : Machine} (jobs : m'.jobs = m.jobs) (live : m'.live = m.live)
    (children : List Nat) : m'.adopts children = m.adopts children := by
  induction children with
  | nil => rfl
  | cons child others ih => simp only [adopts, jobs, live, ih]

def protector (m : Machine) : Nat → Nat → Option (Option Nat)
  | 0, _ => none
  | fuel + 1, final =>
      if (m.jobs final).uninterruptable then some (some final)
      else match (m.jobs final).reuse with
      | none => some none
      | some inner => protector m fuel inner

def cancelReturn (m : Machine) (thread : Thread) : CancelCaller → Option Machine
  | .anyRun => some (m.moveTo thread .goal)
  | .yield => some (m.moveTo thread .returning)
  | .await =>
      match thread.context.awaits with
      | [] => none
      | frame :: outer => some (m.awaitRethrow thread frame outer)
  | .runtime => m.finish thread
  | .cancelWait => none

def cancelRound (m : Machine) (thread : Thread) (children : List Nat) (i unsupport : Nat)
    (caller : CancelCaller) : Option Machine :=
  match children[i]? with
  | some child =>
      if m.live child = false then none
      else if (m.jobs child).status = .running then
        match protector m m.next child with
        | none => none
        | some (some final) =>
            some ((if final ≠ child then m.setStatus final .canceled else m).moveTo thread
              (.cancelLoop (i + 1) (unsupport + 1) caller))
        | some none =>
            switchTo ({ m.setStatus child .canceled with signal := true }.moveTo thread
              (.canceling i unsupport caller)) (some child)
      else some (m.moveTo thread (.cancelLoop (i + 1) unsupport caller))
  | none =>
      if unsupport = 0 then m.cancelReturn thread caller
      else some ((m.setJob thread.context.inner fun job =>
        { job with uninterruptable := true }).moveTo thread (.cancelWait unsupport caller))

def cancelTask (m : Machine) (thread : Thread) (caller : CancelCaller) : Option Machine :=
  match (m.jobs thread.context.inner).kind with
  | .user => m.cancelReturn thread caller
  | .event =>
      cancelReturn { m with armed := Function.update m.armed thread.context.inner false }
        thread caller
  | .group _ _ => some (m.moveTo thread (.cancelLoop 0 0 caller))

def runReturn (m : Machine) (thread : Thread) : Option Machine :=
  match thread.context.awaits with
  | frame :: outer => some (m.awaitReturn thread frame outer)
  | [] =>
      if (m.jobs thread.context.base).status = .running then
        (m.complete thread.context.base).finish thread
      else m.finish thread

def runThrow (m : Machine) (thread : Thread) : Option Machine :=
  (m.setStatus thread.context.inner .canceled).cancelTask thread
    (if thread.context.awaits = [] then .runtime else .await)

/-- A yield that returns. The signal is only meant for the yields of a thread that is not
inside `__task_cancel_children`. -/
def yieldReturn (m : Machine) (thread : Thread) (at_ : YieldAt) : Option Machine :=
  let cur := thread.context.inner
  if m.signal then
    let consumed := { m with signal := false }
    match at_ with
    | .cancelWait _ _ => none
    | _ =>
        if (m.jobs cur).status ≠ .canceled then
          some ((consumed.setStatus cur .canceled).moveTo thread .throwing)
        else consumed.cancelTask thread .yield
  else match at_ with
  | .event => some (m.moveTo thread .returning)
  | .cancelWait unsupport caller =>
      some (m.moveTo thread (.cancelWait (unsupport - 1) caller))
  | .wait count =>
      match (m.jobs cur).kind with
      | .group .allOf _ => some (m.moveTo thread (.waiting (count - 1)))
      | .group .anyOf children =>
          some ((m.setJob cur fun job => { job with
            completedId := children.findIdx? fun child =>
              (m.jobs child).status = .completed }).moveTo thread (.cancelLoop 0 0 .anyRun))
      | _ => none

def runGroup (m : Machine) (thread : Thread) (children : List Nat) : Option Machine :=
  match m.adopts children with
  | none => none
  | some true => some (m.moveTo thread (.starting 0 children.length))
  | some false =>
      some ((m.setStatus thread.context.inner .childUnready).moveTo thread .returning)

def groupStep (m : Machine) (thread : Thread) (which : Combinator) (children : List Nat) :
    Point → Option Machine
  | .starting i count =>
      match children[i]? with
      | none => some (m.moveTo thread (.waiting count))
      | some child =>
          (m.moveTo thread (.started i count)).launch child (some thread.context.base)
            (some thread.context.base)
  | .started i count =>
      match children[i]? with
      | none => none
      | some child =>
          if m.live child = false then none
          else if (m.jobs child).status = .completed then
            match which with
            | .allOf => some (m.moveTo thread (.starting (i + 1) (count - 1)))
            | .anyOf => some ((m.setJob thread.context.inner fun job =>
                { job with completedId := some i }).moveTo thread (.waiting count))
          else some (m.moveTo thread (.starting (i + 1) count))
  | .waiting count =>
      match which with
      | .allOf =>
          if count = 0 then some (m.moveTo thread .goal) else m.yield thread (.wait count)
      | .anyOf =>
          if (m.jobs thread.context.inner).completedId = none then m.yield thread (.wait count)
          else some (m.moveTo thread (.cancelLoop 0 0 .anyRun))
  | .cancelLoop i unsupport caller => m.cancelRound thread children i unsupport caller
  | .canceling i unsupport caller =>
      some (m.moveTo thread (.cancelLoop (i + 1) unsupport caller))
  | .cancelWait unsupport caller =>
      if unsupport = 0 then m.cancelReturn thread caller
      else m.yield thread (.cancelWait unsupport caller)
  | .goal => some (m.moveTo thread .returning)
  | _ => none

def construct (m : Machine) (kind : Kind) : Machine :=
  { m with
    jobs := Function.update m.jobs m.next ⟨kind, none, .ready, false, none⟩
    live := Function.update m.live m.next true
    next := m.next + 1 }

def objectStep (m : Machine) : Label → Option Machine
  | .construct (.group _ []) _ => none
  | .construct kind _ => some (m.construct kind)
  | .destroy target =>
      if m.live target then some { m with live := Function.update m.live target false } else none
  | .uninterruptable target =>
      if m.live target then
        some (m.setJob target fun job => { job with uninterruptable := true })
      else none
  | _ => none

def userStep (m : Machine) (thread : Thread) : Label → Option Machine
  | .await target => m.await thread target
  | .start target => m.start thread target
  | .ret => some (m.moveTo thread .returning)
  | label => m.objectStep label

def coroutineStep (m : Machine) (thread : Thread) : Option Machine :=
  match thread.context.point, (m.jobs thread.context.inner).kind with
  | .enter, .user => some (m.moveTo thread .user)
  | .enter, .group _ children => m.runGroup thread children
  | .inStart _, _ => some (m.moveTo thread .user)
  | .yielded at_, _ => m.yieldReturn thread at_
  | .returning, _ => m.runReturn thread
  | .throwing, _ => m.runThrow thread
  | point, .group which children => m.groupStep thread which children point
  | _, _ => none

def threadStep (m : Machine) (thread : Thread) (label : Label) : Option Machine :=
  match label, thread.context.point, (m.jobs thread.context.inner).kind with
  | .tau, _, _ => m.coroutineStep thread
  | .block, .enter, .event =>
      yield { m with armed := Function.update m.armed thread.context.inner true } thread .event
  | .skip, .enter, .event => some (m.moveTo thread .returning)
  | .destroy target, .throwing, .user => m.objectStep (.destroy target)
  | label, .user, .user => m.userStep thread label
  | _, _, _ => none

def loopStep (m : Machine) : Label → Option Machine
  | .event t =>
      if m.armed t ∧ m.live t then
        switchTo { m with armed := Function.update m.armed t false } (m.host t)
      else none
  | .cocoflow t =>
      if m.top = none ∧ m.live t then launch { m with top := some t } t none none else none
  | label => if m.top = none then m.objectStep label else none

def step (m : Machine) (label : Label) : Option Machine :=
  match m.exec with
  | none => m.loopStep label
  | some base =>
      match m.threads base with
      | none => none
      | some thread => m.threadStep thread label

end Machine

end Cocoflow.ThreadScheduler
