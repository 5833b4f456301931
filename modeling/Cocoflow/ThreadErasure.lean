import Mathlib.Logic.Function.Basic
import Mathlib.Data.List.Basic
import Cocoflow.PointUpdates
import Cocoflow.SchedulerNest
import Cocoflow.SchedulerLocal
import Cocoflow.SchedulerSwitch
import Cocoflow.ThreadScheduler

/-!
What is left of a scheduler state without the ids, and how the updates of the scheduler look
there. A coroutine becomes the thread of the task at its bottom, and an id becomes the name
of the coroutine that has it. The threads are determined by `Wired` alone: every coroutine
is found under the id that its tasks carry, and the ids that it may switch to are in use.
-/

namespace Cocoflow.ThreadErasure

open Scheduler SchedulerNest SchedulerLocal SchedulerSwitch ThreadScheduler

def job (task : Task) : Job where
  kind := task.kind
  reuse := task.reuse
  status := if task.status = .limited then .ready else task.status
  uninterruptable := task.uninterruptable
  completedId := task.completedId

def name (s : State) (id : Option Nat) : Option Nat :=
  id.bind fun k => (s.contexts k).map Context.base

def thread (s : State) (context : Context) : Thread where
  context := context
  blockTo := name s (s.tasks context.inner).blockTo
  finishTo := name s (s.tasks context.base).finishTo

def threads (s : State) (t : Nat) : Option Thread :=
  ((s.tasks t).uid.bind s.contexts).bind fun context =>
    if context.base = t then some (thread s context) else none

def erase (s : State) : Machine where
  jobs := fun t => job (s.tasks t)
  live := s.live
  next := s.next
  threads := threads s
  exec := name s s.exec
  current := s.current
  signal := s.signal
  armed := s.armed
  top := s.top
  clock := s.clock
  done := s.done

structure Wired (s : State) : Prop where
  owned : ∀ k context, s.contexts k = some context →
    ∀ t ∈ context.chain, (s.tasks t).uid = some k
  nodup : ∀ k context, s.contexts k = some context → context.chain.Nodup
  parents : ∀ k context, s.contexts k = some context →
    context.awaits.map Frame.parent = context.chain.tail
  untied : ∀ k context, s.contexts k = some context →
    ∀ t ∈ context.chain.tail, (s.tasks t).blockTo = none
  manager : ∀ k context, s.contexts k = some context → s.manager k = some context.base
  exec : ∀ k, s.exec = some k → s.contexts k ≠ none
  blockTo : ∀ k context q, s.contexts k = some context →
    (s.tasks context.inner).blockTo = some q → q ≠ k ∧ s.contexts q ≠ none
  finishTo : ∀ k context q, s.contexts k = some context →
    (s.tasks context.base).finishTo = some q → q ≠ k ∧ s.contexts q ≠ none

section Statuses

variable {task : Task} {status : Status}

theorem job_status (begun : status ≠ .ready) (given : status ≠ .limited) :
    (job task).status = status ↔ task.status = status := by
  unfold job
  dsimp only
  by_cases limited : task.status = .limited
  · rw [if_pos limited, limited]
    exact ⟨fun same => absurd same.symm begun, fun same => absurd same.symm given⟩
  · rw [if_neg limited]

theorem job_new : (job task).status = .ready ↔ task.status = .ready ∨ task.status = .limited := by
  unfold job
  dsimp only
  by_cases limited : task.status = .limited
  · simp [limited]
  · simp [limited]

theorem job_ready (given : task.status ≠ .limited) :
    (job task).status = .ready ↔ task.status = .ready := by
  rw [job_new]
  exact ⟨fun new => new.resolve_right given, Or.inl⟩

theorem job_setStatus (given : status ≠ .limited) :
    job { task with status := status } = { job task with status := status } := by
  simp [job, given]

end Statuses

section Names

variable {s s' : State} {k q : Nat} {context : Context}

theorem name_found (found : s.contexts k = some context) :
    name s (some k) = some context.base := by
  simp [name, found]

@[simp] theorem name_none : name s none = none := rfl

theorem name_congr (same : ∀ k, (s'.contexts k).map Context.base = (s.contexts k).map Context.base)
    (id : Option Nat) : name s' id = name s id := by
  unfold name
  congr 1
  funext k
  exact same k

theorem name_eq_none {id : Option Nat} (used : ∀ q, id = some q → s.contexts q ≠ none) :
    name s id = none ↔ id = none := by
  cases id with
  | none => simp
  | some q =>
      have found := used q rfl
      cases there : s.contexts q with
      | none => exact absurd there found
      | some context => simp [name, there]

theorem thread_congr (inner : (s'.tasks context.inner).blockTo = (s.tasks context.inner).blockTo)
    (base : (s'.tasks context.base).finishTo = (s.tasks context.base).finishTo)
    (block : name s' (s.tasks context.inner).blockTo = name s (s.tasks context.inner).blockTo)
    (finish : name s' (s.tasks context.base).finishTo = name s (s.tasks context.base).finishTo) :
    thread s' context = thread s context := by
  unfold thread
  rw [inner, base, block, finish]

theorem threads_base (owned : (s.tasks context.base).uid = some k)
    (found : s.contexts k = some context) : threads s context.base = some (thread s context) := by
  simp [threads, owned, found]

theorem threads_some {t : Nat} {there : Thread} (found : threads s t = some there) :
    ∃ k context, (s.tasks t).uid = some k ∧ s.contexts k = some context ∧ context.base = t ∧
      there = thread s context := by
  unfold threads at found
  obtain ⟨context, place, rest⟩ := Option.bind_eq_some_iff.mp found
  obtain ⟨k, uid, there⟩ := Option.bind_eq_some_iff.mp place
  split at rest
  · rename_i base
    exact ⟨k, context, uid, there, base, (Option.some.inj rest).symm⟩
  · cases rest

theorem threads_none {t : Nat}
    (absent : ∀ k context, s.contexts k = some context → context.base ≠ t) :
    threads s t = none := by
  cases found : threads s t with
  | none => rfl
  | some there =>
      obtain ⟨k, context, -, place, base, -⟩ := threads_some found
      exact absurd base (absent k context place)

end Names

section Wiring

variable {s : State} {nest : Nest} {k q : Nat}

theorem nested_token (nested : Nested s nest) (mode : modeOf nest k = .live (some q)) :
    ∃ upper lower, s.contexts k = some upper ∧ s.contexts q = some lower ∧
      lower.stamp < upper.stamp := by
  induction nest with
  | nil => cases mode
  | cons entry rest ih =>
      obtain ⟨l, above⟩ := entry
      by_cases here : k = l
      · subst here
        rw [modeOf_head] at mode
        subst mode
        cases rest with
        | nil => cases nested.2
        | cons below deeper =>
            obtain ⟨⟨upper, lower, there, found, earlier, waits⟩, -⟩ := nested
            cases point : lower.point <;> simp only [point, reduceCtorEq, false_and] at waits
            case inStart target =>
                cases waits.2.1
                exact ⟨upper, lower, there, found, earlier⟩
            case started i count =>
                cases waits.1
                exact ⟨upper, lower, there, found, earlier⟩
      · rw [modeOf_tail above rest here] at mode
        cases rest with
        | nil => cases mode
        | cons below deeper => exact ih nested.2 mode

theorem wired_of (inv : Invariant s nest) : Wired s where
  owned k context found t member := ((inv.sound k context found).owned t member).2
  nodup k context found := (inv.sound k context found).nodup
  parents k context found := (inv.sound k context found).parents
  untied k context found t member := ((inv.sound k context found).outer t member).2
  manager k context found := (inv.sound k context found).manager
  exec k running := by
    have head := inv.exec
    rw [running] at head
    cases nest with
    | nil => cases head
    | cons entry rest =>
        obtain ⟨l, mode⟩ := entry
        cases head
        cases rest with
        | nil =>
            obtain ⟨⟨context, found⟩, -⟩ := inv.nested
            rw [found]
            simp
        | cons below deeper =>
            obtain ⟨⟨upper, -, found, -⟩, -⟩ := inv.nested
            rw [found]
            simp
  blockTo k context q found block := by
    rw [(inv.sound k context found).token] at block
    have mode : modeOf nest k = .live (some q) := by
      cases mode : modeOf nest k with
      | live token =>
          rw [mode] at block
          exact congrArg Mode.live block
      | parked => rw [mode] at block; cases block
      | cancelling => rw [mode] at block; cases block
    obtain ⟨upper, lower, there, below, earlier⟩ := nested_token inv.nested mode
    refine ⟨?_, by simp [below]⟩
    rintro rfl
    rw [there] at below
    cases below
    omega
  finishTo k context q found finish := by
    obtain ⟨parent, -, -, there, -, -, earlier, -⟩ :=
      (inv.sound k context found).adopted q finish
    refine ⟨?_, by simp [there]⟩
    rintro rfl
    rw [found] at there
    cases there
    omega

end Wiring

section Updates

variable {s s' : State} {k t : Nat} {context next : Context}

theorem threads_iff (owned : ∀ l other, s.contexts l = some other →
      (s.tasks other.base).uid = some l) {there : Thread} :
    threads s t = some there ↔
      ∃ l other, s.contexts l = some other ∧ other.base = t ∧ there = thread s other := by
  constructor
  · intro found
    obtain ⟨l, other, -, place, base, same⟩ := threads_some found
    exact ⟨l, other, place, base, same⟩
  · rintro ⟨l, other, place, rfl, rfl⟩
    exact threads_base (owned l other place) place

theorem threads_kept (wired : Wired s) (contexts : s'.contexts = s.contexts)
    (links : ∀ l other, s.contexts l = some other →
      (s'.tasks other.base).uid = (s.tasks other.base).uid ∧
        (s'.tasks other.inner).blockTo = (s.tasks other.inner).blockTo ∧
        (s'.tasks other.base).finishTo = (s.tasks other.base).finishTo) :
    threads s' = threads s := by
  have before (l : Nat) (other : Context) (place : s.contexts l = some other) :
      (s.tasks other.base).uid = some l := wired.owned l other place _ (base_mem other)
  have after (l : Nat) (other : Context) (place : s'.contexts l = some other) :
      (s'.tasks other.base).uid = some l := by
    rw [contexts] at place
    rw [(links l other place).1]
    exact before l other place
  have names : ∀ id, name s' id = name s id := name_congr fun l => by rw [contexts]
  funext t
  refine Option.ext fun there => ?_
  rw [threads_iff before, threads_iff after, contexts]
  constructor
  · rintro ⟨l, other, place, base, rfl⟩
    obtain ⟨-, block, finish⟩ := links l other place
    exact ⟨l, other, place, base, thread_congr block finish (names _) (names _)⟩
  · rintro ⟨l, other, place, base, rfl⟩
    obtain ⟨-, block, finish⟩ := links l other place
    exact ⟨l, other, place, base, (thread_congr block finish (names _) (names _)).symm⟩

theorem name_moved (found : s.contexts k = some context) (base : next.base = context.base)
    (contexts : s'.contexts = Function.update s.contexts k (some next)) (id : Option Nat) :
    name s' id = name s id := by
  refine name_congr (fun l => ?_) id
  rw [contexts]
  by_cases here : l = k
  · subst here
    rw [Function.update_self, found, Option.map_some, Option.map_some, base]
  · rw [Function.update_of_ne here]

theorem name_elsewhere {after : Option Context}
    (contexts : s'.contexts = Function.update s.contexts k after) {id : Option Nat}
    (apart : ∀ q, id = some q → q ≠ k) : name s' id = name s id := by
  cases id with
  | none => rfl
  | some q => simp [name, contexts, Function.update_of_ne (apart q rfl)]

theorem threads_update (wired : Wired s) {after : Option Context}
    (contexts : s'.contexts = Function.update s.contexts k after)
    (uid : (s.tasks t).uid = some k) (kept : (s'.tasks t).uid = some k)
    (before : ∀ context, s.contexts k = some context → context.base = t)
    (base : ∀ context, after = some context → context.base = t)
    (others : ∀ l other, l ≠ k → s.contexts l = some other →
      (s'.tasks other.base).uid = (s.tasks other.base).uid ∧ thread s' other = thread s other) :
    threads s' = Function.update (threads s) t (after.map (thread s')) := by
  have owned (l : Nat) (other : Context) (place : s.contexts l = some other) :
      (s.tasks other.base).uid = some l := wired.owned l other place _ (base_mem other)
  funext u
  by_cases here : u = t
  · subst here
    rw [Function.update_self]
    cases after with
    | some next =>
        have bottom := base next rfl
        subst bottom
        exact threads_base kept (by rw [contexts, Function.update_self])
    | none =>
        refine threads_none fun l other place same => ?_
        rw [contexts] at place
        rcases PointUpdates.update_some place with ⟨-, gone⟩ | ⟨apart, old⟩
        · cases gone
        · rw [← same, owned l other old] at uid
          exact apart (Option.some.inj uid)
  · rw [Function.update_of_ne here]
    cases there : threads s u with
    | some found =>
        obtain ⟨l, other, -, place, rfl, rfl⟩ := threads_some there
        have apart : l ≠ k := by
          rintro rfl
          exact here (before other place)
        obtain ⟨same, stays⟩ := others l other apart place
        rw [threads_base (k := l) (by rw [same]; exact owned l other place)
          (by rw [contexts, Function.update_of_ne apart]; exact place), stays]
    | none =>
        refine threads_none fun l other place same => ?_
        rw [contexts] at place
        rcases PointUpdates.update_some place with ⟨-, made⟩ | ⟨-, old⟩
        · exact here (same.symm.trans (base other made))
        · subst same
          rw [threads_base (owned l other old) old] at there
          cases there

theorem threads_moved (wired : Wired s) (found : s.contexts k = some context)
    (base : next.base = context.base)
    (contexts : s'.contexts = Function.update s.contexts k (some next))
    (uid : ∀ l other, s.contexts l = some other →
      (s'.tasks other.base).uid = (s.tasks other.base).uid)
    (links : ∀ l other, l ≠ k → s.contexts l = some other →
      (s'.tasks other.inner).blockTo = (s.tasks other.inner).blockTo ∧
        (s'.tasks other.base).finishTo = (s.tasks other.base).finishTo) :
    threads s' = Function.update (threads s) context.base (some (thread s' next)) := by
  have names := name_moved found base contexts
  have owned := wired.owned k context found _ (base_mem context)
  refine threads_update wired contexts owned ((uid k context found).trans owned)
    (fun other place => ?_) (fun other same => ?_) fun l other apart place => ?_
  · rw [found] at place
    cases place
    rfl
  · cases same
    exact base
  · obtain ⟨block, finish⟩ := links l other apart place
    exact ⟨uid l other place, thread_congr block finish (names _) (names _)⟩

theorem threads_ended (wired : Wired s) (after : Wired s') (found : s.contexts k = some context)
    (contexts : s'.contexts = Function.update s.contexts k none) (tasks : s'.tasks = s.tasks) :
    threads s' = Function.update (threads s) context.base none := by
  have unused : s'.contexts k = none := by rw [contexts, Function.update_self]
  have apart {q : Nat} (used : s'.contexts q ≠ none) : q ≠ k := by
    rintro rfl
    exact used unused
  have owned := wired.owned k context found _ (base_mem context)
  refine threads_update wired contexts owned (by rw [tasks]; exact owned)
    (fun other place => ?_) (fun other same => ?_) fun l other elsewhere place => ?_
  · rw [found] at place
    cases place
    rfl
  · cases same
  · have still : s'.contexts l = some other := by
      rw [contexts, Function.update_of_ne elsewhere]
      exact place
    rw [tasks]
    refine ⟨rfl, thread_congr (by rw [tasks]) (by rw [tasks])
      (name_elsewhere contexts fun q block => ?_) (name_elsewhere contexts fun q finish => ?_)⟩
    · exact apart (after.blockTo l other q still (by rw [tasks]; exact block)).2
    · exact apart (after.finishTo l other q still (by rw [tasks]; exact finish)).2

theorem threads_made (wired : Wired s) (free : s.contexts k = none) (base : next.base = t)
    (uid : (s.tasks t).uid = some k)
    (contexts : s'.contexts = Function.update s.contexts k (some next))
    (ids : ∀ other, (s'.tasks other).uid = (s.tasks other).uid ∧
      (s'.tasks other).blockTo = (s.tasks other).blockTo ∧
      (s'.tasks other).finishTo = (s.tasks other).finishTo) :
    threads s' = Function.update (threads s) t (some (thread s' next)) := by
  have apart {q : Nat} (used : s.contexts q ≠ none) : q ≠ k := by
    rintro rfl
    exact used free
  refine threads_update wired contexts uid ((ids t).1.trans uid)
    (fun other place => ?_) (fun other same => ?_) fun l other _ place => ?_
  · rw [free] at place
    cases place
  · cases same
    exact base
  · refine ⟨(ids _).1, thread_congr (ids _).2.1 (ids _).2.2
      (name_elsewhere contexts fun q block => ?_) (name_elsewhere contexts fun q finish => ?_)⟩
    · exact apart (wired.blockTo l other q place block).2
    · exact apart (wired.finishTo l other q place finish).2

theorem stranger (wired : Wired s) (found : s.contexts k = some context)
    {l u : Nat} {other : Context} (place : s.contexts l = some other) (apart : l ≠ k)
    (mine : t ∈ context.chain) (theirs : u ∈ other.chain) : u ≠ t := by
  rintro rfl
  have here := wired.owned k context found u mine
  rw [wired.owned l other place u theirs] at here
  exact apart (Option.some.inj here)

/-- What a step of one coroutine may do to the threads: it changes tasks on its own stack and
tasks that are on no stack. -/
theorem threads_change (wired : Wired s) (found : s.contexts k = some context)
    (base : next.base = context.base)
    (contexts : s'.contexts = Function.update s.contexts k (some next))
    (change : ∀ t, s'.tasks t = s.tasks t ∨ t ∈ context.chain ∨ Idle s t)
    (uid : (s'.tasks context.base).uid = (s.tasks context.base).uid) :
    threads s' = Function.update (threads s) next.base (some ⟨next,
      name s (s'.tasks next.inner).blockTo, name s (s'.tasks next.base).finishTo⟩) := by
  have others {l : Nat} {other : Context} (apart : l ≠ k) (place : s.contexts l = some other)
      {t : Nat} (member : t ∈ other.chain) : s'.tasks t = s.tasks t := by
    rcases change t with same | mine | idle
    · exact same
    · exact absurd rfl (stranger wired found place apart mine member)
    · exact absurd member (idle l other place)
  have names := name_moved found base contexts
  have moved := threads_moved wired found base contexts (fun l other place => ?_)
    fun l other apart place => ?_
  · rw [moved, ← base]
    unfold thread
    rw [names, names]
  · by_cases here : l = k
    · subst here
      rw [found] at place
      cases place
      exact uid
    · rw [others here place (base_mem other)]
  · rw [others apart place (inner_mem other), others apart place (base_mem other)]
    exact ⟨rfl, rfl⟩

end Updates

section Writes

variable {s s' : State} {k t : Nat} {context : Context}

def KeepsIds (write : Task → Task) : Prop :=
  ∀ task, (write task).uid = task.uid ∧ (write task).blockTo = task.blockTo ∧
    (write task).finishTo = task.finishTo

theorem setTask_field {α : Type} (field : Task → α) {write : Task → Task}
    (keeps : field (write (s.tasks t)) = field (s.tasks t)) (other : Nat) :
    field ((s.setTask t write).tasks other) = field (s.tasks other) := by
  by_cases here : other = t
  · subst here
    rw [setTask_self]
    exact keeps
  · rw [setTask_other _ _ _ here]

theorem setTask_ids {write : Task → Task} (keeps : KeepsIds write) (other : Nat) :
    ((s.setTask t write).tasks other).uid = (s.tasks other).uid ∧
      ((s.setTask t write).tasks other).blockTo = (s.tasks other).blockTo ∧
      ((s.setTask t write).tasks other).finishTo = (s.tasks other).finishTo :=
  ⟨setTask_field Task.uid (keeps _).1 other, setTask_field Task.blockTo (keeps _).2.1 other,
    setTask_field Task.finishTo (keeps _).2.2 other⟩

theorem jobs_setTask {write : Task → Task} {change : Job → Job}
    (same : job (write (s.tasks t)) = change (job (s.tasks t))) :
    (fun other => job ((s.setTask t write).tasks other)) =
      Function.update (fun other => job (s.tasks other)) t (change (job (s.tasks t))) := by
  funext other
  by_cases here : other = t
  · subst here
    rw [Function.update_self, ← same]
    exact congrArg job (Function.update_self ..)
  · rw [Function.update_of_ne here, setTask_other _ _ _ here]

theorem threads_ids (contexts : s'.contexts = s.contexts)
    (ids : ∀ t, (s'.tasks t).uid = (s.tasks t).uid ∧ (s'.tasks t).blockTo = (s.tasks t).blockTo ∧
      (s'.tasks t).finishTo = (s.tasks t).finishTo) : threads s' = threads s := by
  funext t
  unfold threads thread name
  simp only [contexts, (ids _).1, (ids _).2.1, (ids _).2.2]

theorem erase_setTask {write : Task → Task} (change : Job → Job) (keeps : KeepsIds write)
    (same : job (write (s.tasks t)) = change (job (s.tasks t))) :
    erase (s.setTask t write) = (erase s).setJob t change :=
  Machine.ext (jobs_setTask same) rfl rfl (threads_ids rfl (setTask_ids keeps)) rfl rfl rfl rfl
    rfl rfl rfl

theorem keeps_status (status : Status) : KeepsIds fun task => { task with status := status } :=
  fun _ => ⟨rfl, rfl, rfl⟩

theorem erase_setStatus {status : Status} (given : status ≠ .limited) :
    erase (s.setStatus t status) = (erase s).setStatus t status :=
  erase_setTask _ (keeps_status status) (job_setStatus given)

theorem erase_complete : erase (s.complete t) = (erase s).complete t := by
  have ended : erase (s.setStatus t .completed) = (erase s).setStatus t .completed :=
    erase_setStatus (by decide)
  exact congrArg (fun m : Machine => { m with done := s.done ++ [t] }) ended

theorem wired_congr (wired : Wired s) (exec : s'.exec = s.exec) (manager : s'.manager = s.manager)
    (back : ∀ l next, s'.contexts l = some next → ∃ other, s.contexts l = some other ∧
      next.base = other.base ∧ next.awaits = other.awaits)
    (forth : ∀ l, s.contexts l ≠ none → s'.contexts l ≠ none)
    (links : ∀ l other, s.contexts l = some other → ∀ t ∈ other.chain,
      (s'.tasks t).uid = (s.tasks t).uid ∧
        (∀ q, (s'.tasks t).blockTo = some q → (s.tasks t).blockTo = some q) ∧
        ∀ q, (s'.tasks t).finishTo = some q → (s.tasks t).finishTo = some q) : Wired s' where
  owned l next found t member := by
    obtain ⟨other, place, base, awaits⟩ := back l next found
    rw [(chain_of_same base awaits).1] at member
    rw [(links l other place t member).1]
    exact wired.owned l other place t member
  nodup l next found := by
    obtain ⟨other, place, base, awaits⟩ := back l next found
    rw [(chain_of_same base awaits).1]
    exact wired.nodup l other place
  parents l next found := by
    obtain ⟨other, place, base, awaits⟩ := back l next found
    rw [(chain_of_same base awaits).1, awaits]
    exact wired.parents l other place
  untied l next found t member := by
    obtain ⟨other, place, base, awaits⟩ := back l next found
    rw [(chain_of_same base awaits).1] at member
    have before := wired.untied l other place t member
    cases block : (s'.tasks t).blockTo with
    | none => rfl
    | some q =>
        rw [(links l other place t (List.mem_of_mem_tail member)).2.1 q block] at before
        cases before
  manager l next found := by
    obtain ⟨other, place, base, -⟩ := back l next found
    rw [manager, base]
    exact wired.manager l other place
  exec l running := forth l (wired.exec l (exec ▸ running))
  blockTo l next q found block := by
    obtain ⟨other, place, base, awaits⟩ := back l next found
    rw [(chain_of_same base awaits).2] at block
    have before := (links l other place _ (inner_mem other)).2.1 q block
    exact (wired.blockTo l other q place before).imp_right (forth q)
  finishTo l next q found finish := by
    obtain ⟨other, place, base, -⟩ := back l next found
    rw [base] at finish
    have before := (links l other place _ (base_mem other)).2.2 q finish
    exact (wired.finishTo l other q place before).imp_right (forth q)

theorem wired_ids (wired : Wired s) (exec : s'.exec = s.exec) (manager : s'.manager = s.manager)
    (contexts : s'.contexts = s.contexts)
    (ids : ∀ t, (s'.tasks t).uid = (s.tasks t).uid ∧ (s'.tasks t).blockTo = (s.tasks t).blockTo ∧
      (s'.tasks t).finishTo = (s.tasks t).finishTo) : Wired s' := by
  refine wired_congr wired exec manager (fun l next found => ?_) (fun l used => ?_)
    fun l other place t member => ?_
  · rw [contexts] at found
    exact ⟨next, found, rfl, rfl⟩
  · rw [contexts]
    exact used
  · rw [(ids t).1, (ids t).2.1, (ids t).2.2]
    exact ⟨rfl, fun _ => id, fun _ => id⟩

theorem wired_setTask (wired : Wired s) {write : Task → Task} (keeps : KeepsIds write) :
    Wired (s.setTask t write) := wired_ids wired rfl rfl rfl (setTask_ids keeps)

theorem wired_idle (wired : Wired s) (idle : Idle s t) (write : Task → Task) :
    Wired (s.setTask t write) := by
  refine wired_congr wired rfl rfl (fun l next found => ⟨next, found, rfl, rfl⟩)
    (fun _ used => used) fun l other place u member => ?_
  have apart : u ≠ t := by
    rintro rfl
    exact idle l other place member
  rw [setTask_other _ _ _ apart]
  exact ⟨rfl, fun _ => id, fun _ => id⟩

theorem erase_idle (change : Job → Job) (wired : Wired s) (idle : Idle s t)
    {write : Task → Task} (same : job (write (s.tasks t)) = change (job (s.tasks t))) :
    erase (s.setTask t write) = (erase s).setJob t change := by
  refine Machine.ext (jobs_setTask same) rfl rfl (threads_kept wired rfl fun l other place => ?_)
    rfl rfl rfl rfl rfl rfl rfl
  have apart (u : Nat) (member : u ∈ other.chain) : u ≠ t := by
    rintro rfl
    exact idle l other place member
  rw [setTask_other _ _ _ (apart _ (base_mem other)),
    setTask_other _ _ _ (apart _ (inner_mem other))]
  exact ⟨rfl, rfl, rfl⟩

theorem wired_untied (wired : Wired s) {write : Task → Task}
    (uid : (write (s.tasks t)).uid = (s.tasks t).uid)
    (block : ∀ q, (write (s.tasks t)).blockTo = some q → (s.tasks t).blockTo = some q)
    (finish : ∀ q, (write (s.tasks t)).finishTo = some q → (s.tasks t).finishTo = some q) :
    Wired (s.setTask t write) := by
  refine wired_congr wired rfl rfl (fun l next found => ⟨next, found, rfl, rfl⟩)
    (fun _ used => used) fun l other place u member => ?_
  by_cases here : u = t
  · subst here
    rw [setTask_self]
    exact ⟨uid, block, finish⟩
  · rw [setTask_other _ _ _ here]
    exact ⟨rfl, fun _ => id, fun _ => id⟩

theorem erase_tied (change : Job → Job) (wired : Wired s) (found : s.contexts k = some context)
    (member : t ∈ context.chain) {write : Task → Task}
    (base : t = context.base → (write (s.tasks t)).uid = (s.tasks t).uid)
    (same : job (write (s.tasks t)) = change (job (s.tasks t))) :
    erase (s.setTask t write) =
      ((erase s).setJob t change).setThread (thread (s.setTask t write) context) := by
  have contexts : (s.setTask t write).contexts = Function.update s.contexts k (some context) := by
    rw [← found, Function.update_eq_self]
    rfl
  refine Machine.ext (jobs_setTask same) rfl rfl ?_ rfl rfl rfl rfl rfl rfl rfl
  refine threads_moved wired found rfl contexts (fun l other place => ?_)
    fun l other apart place => ?_
  · by_cases here : other.base = t
    · have mine : other = context := by
        by_cases apart : l = k
        · subst apart
          rw [found] at place
          exact (Option.some.inj place).symm
        · exact absurd here (stranger wired found place apart member (base_mem other))
      subst mine
      subst here
      exact (congrArg Task.uid (Function.update_self ..)).trans (base rfl)
    · rw [setTask_other _ _ _ here]
  · rw [setTask_other _ _ _ (stranger wired found place apart member (base_mem other)),
      setTask_other _ _ _ (stranger wired found place apart member (inner_mem other))]
    exact ⟨rfl, rfl⟩

theorem name_moveTo (found : s.contexts k = some context) (point : Point) (id : Option Nat) :
    name (s.moveTo k context point) id = name s id := by
  have contexts : (s.moveTo k context point).contexts =
      Function.update s.contexts k (some { context with point := point }) := rfl
  exact name_moved found (by rfl) contexts id

theorem erase_setContext (wired : Wired s) (found : s.contexts k = some context) {next : Context}
    (base : next.base = context.base) :
    erase (s.setContext k next) = (erase s).setThread (thread s next) := by
  have contexts : (s.setContext k next).contexts = Function.update s.contexts k (some next) := rfl
  have names := name_moved found base contexts
  refine Machine.ext rfl rfl rfl ?_ (names _) rfl rfl rfl rfl rfl rfl
  refine (threads_moved wired found base contexts (fun _ _ _ => rfl)
    fun _ _ _ _ => ⟨rfl, rfl⟩).trans ?_
  have same : thread (s.setContext k next) next = thread s next :=
    thread_congr rfl rfl (names _) (names _)
  rw [same, ← base]
  rfl

theorem wired_moveTo (wired : Wired s) (found : s.contexts k = some context) (point : Point) :
    Wired (s.moveTo k context point) := by
  refine wired_congr wired rfl rfl (fun l next place => ?_) (fun l used => ?_)
    fun _ _ _ _ _ => ⟨rfl, fun _ => id, fun _ => id⟩
  · rcases PointUpdates.update_some place with ⟨rfl, moved⟩ | ⟨-, old⟩
    · cases moved
      exact ⟨context, found, rfl, rfl⟩
    · exact ⟨next, old, rfl, rfl⟩
  · change Function.update s.contexts k _ l ≠ none
    by_cases here : l = k
    · subst here
      rw [Function.update_self]
      simp
    · rw [Function.update_of_ne here]
      exact used

theorem erase_moveTo (wired : Wired s) (found : s.contexts k = some context) (point : Point) :
    erase (s.moveTo k context point) = (erase s).moveTo (thread s context) point :=
  erase_setContext wired found (by rfl)

end Writes

section Switches

variable {s : State} {k t : Nat} {context : Context}

theorem erase_switch {source target : Option Nat} (running : source = s.exec)
    (used : ∀ q, target = some q → ∃ other, s.contexts q = some other ∧
      s.manager q = some other.base ∧ (s.tasks other.base).uid = some q) :
    (swapRunning s source target).map erase = (erase s).switchTo (name s target) := by
  unfold swapRunning
  rw [if_neg (not_not_intro running)]
  cases target with
  | none => rfl
  | some q =>
      obtain ⟨other, place, managed, uid⟩ := used q rfl
      have there : ((erase s).threads other.base).isSome = true := by
        change (threads s other.base).isSome = true
        rw [threads_base uid place]
        rfl
      simp only [place, Option.map_some, name_found place, Machine.switchTo_some there]
      refine congrArg some (Machine.ext rfl rfl rfl rfl ?_ managed rfl rfl rfl rfl rfl)
      exact name_found place

theorem erase_stays {source target : Option Nat} (wired : Wired s) (running : source = s.exec)
    (used : ∀ q, target = some q → s.contexts q ≠ none) :
    (swapRunning s source target).map erase = (erase s).switchTo (name s target) := by
  refine erase_switch running fun q same => ?_
  cases place : s.contexts q with
  | none => exact absurd place (used q same)
  | some other =>
      exact ⟨other, rfl, wired.manager q other place, wired.owned q other place _ (base_mem other)⟩

theorem erase_launch {source : Option Nat} (wired : Wired s) (running : source = s.exec)
    (free : s.contexts k = none) (managed : s.manager k = some t) (live : s.live t = true)
    (uid : (s.tasks t).uid = some k)
    (block : ∀ q, (s.tasks t).blockTo = some q → s.contexts q ≠ none)
    (finish : ∀ q, (s.tasks t).finishTo = some q → s.contexts q ≠ none) :
    (swapRunning s source (some k)).map erase =
      (erase s).launch t (name s (s.tasks t).blockTo) (name s (s.tasks t).finishTo) := by
  have contexts : (spawns s t k).contexts = Function.update s.contexts k
      (some { base := t, awaits := [], point := .enter, stamp := s.clock }) := rfl
  have ids := setTask_ids (s := s) (t := t) (keeps_status .running)
  have names {id : Option Nat} (used : ∀ q, id = some q → s.contexts q ≠ none) :
      name (spawns s t k) id = name s id := by
    refine name_elsewhere contexts fun q same => ?_
    rintro rfl
    exact used q same free
  have same : thread (spawns s t k) { base := t, awaits := [], point := .enter, stamp := s.clock } =
      ⟨{ base := t, awaits := [], point := .enter, stamp := s.clock },
        name s (s.tasks t).blockTo, name s (s.tasks t).finishTo⟩ := by
    rw [← names block, ← names finish, ← (ids t).2.1, ← (ids t).2.2]
    rfl
  have begun : (erase (s.setStatus t .running)).jobs = ((erase s).setStatus t .running).jobs :=
    congrArg Machine.jobs (erase_setStatus (by decide))
  rw [swapRunning_spawns running free managed live]
  unfold Machine.launch
  rw [if_pos (show (erase s).live t = true from live)]
  refine congrArg some (Machine.ext ?_ rfl rfl ?_ (name_found spawns_here) rfl rfl rfl rfl rfl rfl)
  · exact begun
  · refine (threads_made wired free (by rfl) uid contexts ids).trans ?_
    rw [same]
    rfl

end Switches

end Cocoflow.ThreadErasure
