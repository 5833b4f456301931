import Mathlib.Data.List.Basic
import Mathlib.Data.List.Nodup
import Cocoflow.LabelledRuns

/-!
Accepting connections on a `tcp::listening` (src/tcp.cc). An `accept` enters the queue before
it tries to listen, so one that finds the address in use returns without leaving the queue.
`suspended` is what the scheduler knows: the `accept` tasks that wait, in the order in which
they were issued. A failed `CHECK` has no next state.
-/

namespace Cocoflow.TcpAccept

open LabelledRuns

structure Accept where
  id : Nat
  conn : Nat
  deriving DecidableEq

inductive Ret where
  | success | addressInUse
  deriving DecidableEq

inductive Listen where
  | ok | addressInUse | failed
  deriving DecidableEq

structure Listening where
  accepting : Bool := false
  acceptQueue : List Accept := []
  suspended : List Accept := []
  established : List Nat := []
  resumed : List Nat := []
  rets : List (Nat × Ret) := []
  closed : Nat := 0
  next : Nat := 0
  deriving DecidableEq

namespace Listening

def acceptRun (listening : Listening) (conn : Nat) (listen : Listen) : Option Listening :=
  let task : Accept := { id := listening.next, conn := conn }
  let entered := { listening with
    acceptQueue := listening.acceptQueue ++ [task]
    next := listening.next + 1 }
  if entered.accepting then some { entered with suspended := entered.suspended ++ [task] }
  else match listen with
  | .addressInUse => some { entered with rets := entered.rets ++ [(task.id, .addressInUse)] }
  | .failed => none
  | .ok => some { entered with
      accepting := true
      suspended := entered.suspended ++ [task] }

def acceptCancel (listening : Listening) (id : Nat) : Option Listening :=
  if ∃ task ∈ listening.suspended, task.id = id then
    some { listening with
      acceptQueue := listening.acceptQueue.filter fun other => other.id ≠ id
      suspended := listening.suspended.filter fun other => other.id ≠ id }
  else none

/-- `__task_stand` switches to the task whether it waits or not. -/
def stand (listening : Listening) (id : Nat) : Listening :=
  { listening with
    suspended := listening.suspended.filter fun other => other.id ≠ id
    resumed := listening.resumed ++ [id] }

def tcpAcceptCb (listening : Listening) : Option Listening :=
  match listening.acceptQueue with
  | [] => some { listening with closed := listening.closed + 1 }
  | task :: rest =>
      if task.conn ∈ listening.established then none
      else some (stand { listening with
        established := listening.established ++ [task.conn]
        rets := listening.rets ++ [(task.id, .success)]
        acceptQueue := rest } task.id)

end Listening

inductive Label where
  | accept (conn : Nat) (listen : Listen)
  | cancel (id : Nat)
  | connection

/-- Connections come in once `uv_listen` has succeeded. -/
def step (listening : Listening) : Label → Option Listening
  | .accept conn listen => listening.acceptRun conn listen
  | .cancel id => listening.acceptCancel id
  | .connection => if listening.accepting then listening.tcpAcceptCb else none

/-- A connection went to the oldest waiting task, or was closed if there is none. -/
def Given (listening next : Listening) : Prop :=
  match listening.suspended with
  | [] => next = { listening with closed := listening.closed + 1 }
  | task :: rest =>
      next.suspended = rest ∧ next.established = listening.established ++ [task.conn] ∧
        next.rets = listening.rets ++ [(task.id, .success)] ∧
        next.resumed = listening.resumed ++ [task.id] ∧ next.closed = listening.closed

/-- The queue holds the waiting tasks in their order, nobody was resumed twice, and the next
connection goes to the oldest one. -/
structure Faithful (listening : Listening) : Prop where
  queue : listening.acceptQueue = listening.suspended
  once : listening.resumed.Nodup
  given : ∀ next, step listening .connection = some next → Given listening next

/-- An `accept` that has to listen does not find the address in use. -/
def AddressFree (listening : Listening) : Label → Prop
  | .accept _ listen => listening.accepting = false → listen ≠ .addressInUse
  | _ => True

instance (listening : Listening) : (label : Label) → Decidable (AddressFree listening label)
  | .accept _ listen =>
      inferInstanceAs (Decidable (listening.accepting = false → listen ≠ .addressInUse))
  | .cancel _ | .connection => isTrue trivial

structure Numbered (listening : Listening) : Prop where
  nodup : (listening.resumed ++ listening.acceptQueue.map Accept.id).Nodup
  fresh : ∀ id ∈ listening.resumed ++ listening.acceptQueue.map Accept.id, id < listening.next

variable {listening next : Listening}

theorem numbered_entered {conn : Nat} (numbered : Numbered listening)
    (resumed : next.resumed = listening.resumed)
    (queue : next.acceptQueue =
      listening.acceptQueue ++ [{ id := listening.next, conn := conn }])
    (ids : next.next = listening.next + 1) : Numbered next where
  nodup := by
    rw [resumed, queue, List.map_append, ← List.append_assoc, List.nodup_append]
    refine ⟨numbered.nodup, List.nodup_singleton _, ?_⟩
    intro one member other again
    rw [List.map_singleton, List.mem_singleton] at again
    rw [again]
    exact Nat.ne_of_lt (numbered.fresh one member)
  fresh := by
    rw [resumed, queue, ids, List.map_append, ← List.append_assoc]
    intro id member
    rcases List.mem_append.mp member with earlier | last
    · exact Nat.lt_succ_of_lt (numbered.fresh id earlier)
    · rw [List.map_singleton, List.mem_singleton] at last
      rw [last]
      exact Nat.lt_succ_self _

theorem numbered_accept {conn : Nat} {listen : Listen} (numbered : Numbered listening)
    (taken : listening.acceptRun conn listen = some next) : Numbered next := by
  unfold Listening.acceptRun at taken
  dsimp only at taken
  split at taken
  · cases taken
    exact numbered_entered numbered rfl rfl rfl
  · split at taken
    · cases taken
      exact numbered_entered numbered rfl rfl rfl
    · cases taken
    · cases taken
      exact numbered_entered numbered rfl rfl rfl

theorem numbered_step (numbered : Numbered listening) (label : Label)
    (taken : step listening label = some next) : Numbered next := by
  cases label with
  | accept conn listen => exact numbered_accept numbered taken
  | cancel id =>
      simp only [step, Listening.acceptCancel] at taken
      split at taken
      · cases taken
        have fewer : (listening.resumed ++
            (listening.acceptQueue.filter fun other => other.id ≠ id).map Accept.id).Sublist
            (listening.resumed ++ listening.acceptQueue.map Accept.id) :=
          (List.filter_sublist.map _).append_left _
        exact ⟨numbered.nodup.sublist fewer,
          fun other member => numbered.fresh other (fewer.subset member)⟩
      · cases taken
  | connection =>
      simp only [step, Listening.tcpAcceptCb] at taken
      split at taken
      · split at taken
        · cases taken
          exact ⟨numbered.nodup, numbered.fresh⟩
        · rename_i task rest queue
          split at taken
          · cases taken
          · cases taken
            -- the head of the queue becomes the last resumed task
            have moved : listening.resumed ++ [task.id] ++ rest.map Accept.id =
                listening.resumed ++ listening.acceptQueue.map Accept.id := by
              rw [queue, List.append_assoc]
              rfl
            constructor
            · simpa [Listening.stand, ← moved] using numbered.nodup
            · simpa [Listening.stand, ← moved] using numbered.fresh
      · cases taken

theorem faithful_of_queue (numbered : Numbered listening)
    (queue : listening.acceptQueue = listening.suspended) : Faithful listening where
  queue := queue
  once := numbered.nodup.sublist (List.sublist_append_left _ _)
  given := by
    intro next taken
    have nodup : (listening.suspended.map Accept.id).Nodup := by
      rw [← queue]
      exact numbered.nodup.sublist (List.sublist_append_right _ _)
    simp only [step, Listening.tcpAcceptCb, queue] at taken
    unfold Given
    split at taken
    · split at taken
      · rename_i none_
        cases taken
        simp [none_, queue]
      · rename_i task rest oldest
        split at taken
        · cases taken
        · cases taken
          rw [oldest] at nodup ⊢
          refine ⟨?_, rfl, rfl, rfl, rfl⟩
          simp only [Listening.stand]
          rw [List.filter_cons_of_neg (by simp), List.filter_eq_self]
          intro other member
          have apart := (List.nodup_cons.mp nodup).1
          simp only [decide_eq_true_eq]
          intro same
          exact apart (List.mem_map.mpr ⟨other, member, same⟩)
    · cases taken

theorem faithful_step_iff (numbered : Numbered listening) (faithful : Faithful listening)
    (label : Label) (taken : step listening label = some next) :
    Faithful next ↔ AddressFree listening label := by
  have kept := numbered_step numbered label taken
  have onward : next.acceptQueue = next.suspended → Faithful next := faithful_of_queue kept
  cases label with
  | accept conn listen =>
      simp only [step, Listening.acceptRun] at taken
      split at taken
      · rename_i accepting
        cases taken
        refine ⟨fun _ idle => ?_, fun _ => onward ?_⟩
        · rw [idle] at accepting
          cases accepting
        · simp [faithful.queue]
      · rename_i idle
        split at taken
        · cases taken
          -- the task has returned, its entry is still there
          refine ⟨fun same => ?_, fun free => absurd rfl (free (by simpa using idle))⟩
          have longer := congrArg List.length same.queue
          simp [faithful.queue] at longer
        · cases taken
        · cases taken
          exact ⟨fun _ _ => by simp, fun _ => onward (by simp [faithful.queue])⟩
  | cancel id =>
      refine ⟨fun _ => trivial, fun _ => onward ?_⟩
      simp only [step, Listening.acceptCancel] at taken
      split at taken
      · cases taken
        simp [faithful.queue]
      · cases taken
  | connection =>
      refine ⟨fun _ => trivial, fun _ => onward ?_⟩
      have given := faithful.given next taken
      unfold Given at given
      simp only [step, Listening.tcpAcceptCb, faithful.queue] at taken
      split at given
      · rename_i none_
        rw [given]
        simp [faithful.queue]
      · rename_i task rest oldest
        rw [given.1]
        simp only [oldest] at taken
        split at taken
        · split at taken
          · cases taken
          · cases taken
            rfl
        · cases taken

theorem numbered_new : Numbered {} := ⟨by simp, by simp⟩

/-- In a run the queue holds exactly the suspended tasks, and connections go to the oldest of
them, in every state if and only if no `accept` finds the address in use. -/
theorem accept_queue_iff (labels : List Label) (last : Listening)
    (run : replay step {} labels = some last) :
    Throughout step Faithful {} labels ↔ Along step AddressFree {} labels :=
  throughout_iff_along Numbered Faithful
    (fun _ label _ numbered _ taken _ => numbered_step numbered label taken)
    (fun _ label _ numbered faithful taken => faithful_step_iff numbered faithful label taken)
    numbered_new (faithful_of_queue numbered_new rfl) run

def threeConnections : List Label :=
  [.accept 0 .ok, .accept 1 .ok, .connection, .accept 2 .failed, .cancel 1, .connection,
    .connection]

theorem accept_queue_three : Throughout step Faithful {} threeConnections := by
  have reached : (replay step {} threeConnections).isSome := by decide
  exact (accept_queue_iff threeConnections _ (Option.some_get reached).symm).mpr (by decide)

/-- The task that found the address in use is still queued. -/
theorem accept_queue_stale : ¬∀ (labels : List Label) (last : Listening),
    replay step {} labels = some last → last.acceptQueue = last.suspended := by
  intro claimed
  have stale := claimed [.accept 0 .addressInUse] _ rfl
  exact absurd stale (by decide)

end Cocoflow.TcpAccept
