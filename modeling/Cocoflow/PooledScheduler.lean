import Mathlib.Data.List.Basic
import Mathlib.Data.List.Perm.Basic
import Mathlib.Logic.Function.Basic
import Cocoflow.TaskPool
import Cocoflow.SchedulerIds

/-!
The scheduler on top of the id pools: the constructor and the destructor of
`task<UserPages, ProtectPages>` and the inline `await` (include/cocoflow.h) around `__await`,
`__start` and `__task_runtime` (src/cocoflow.cc). The inline `await` puts the id of its target
on the free list of the target's class before `__await` looks at the status of the target.

`global_task_manager` shows for every id the task that took it from a pool. A task that
carries an id shown for another task is awaited: `__await` has lent it the id of its parent.

Classes are initialised before the first task exists, since `__init` then lays out its tables
for good. An exception of a type of the user passes through `__await`, which catches only
`interrupt_canceled`; `__task_runtime` does not catch it either, and so the program ends where
no body on the way does.
-/

namespace Cocoflow.PooledScheduler

open LabelledRuns Scheduler SchedulerNest SchedulerLocal SchedulerObjects SchedulerRuns
open SchedulerFrame SchedulerContracts SchedulerIds PointUpdates
open TaskPool (ClassPool TaskObject Pools giveBack heldAt ownedIds)

structure Pooled where
  sched : State := {}
  cls : Nat → Nat := fun _ => 0
  classes : Nat → Option ClassPool := fun _ => none
  counter : Nat := 0

/-- The task carries the id of another one. -/
def borrows (s : State) (t : Nat) : Bool :=
  (s.tasks t).uid.any fun id => s.manager id != some t

/-- The task object as the pools see it. How far the task has come does not matter to them. -/
def object (p : Pooled) (t : Nat) : TaskObject where
  cls := p.cls t
  uniqueId := (p.sched.tasks t).uid
  phase := if borrows p.sched t then .running else .ended
  awaited := borrows p.sched t

def view (p : Pooled) : Pools where
  classes := p.classes
  counter := p.counter
  initialized := p.sched.next ≠ 0
  objects := fun t => if p.sched.live t then some (object p t) else none
  next := p.sched.next

def deleted (s s' : State) : Option Nat :=
  (List.range s.next).find? fun t => s.live t && !s'.live t

/-- The free lists behind a statement. The inline `await` and the destructor give back the id
that the object carries. -/
def handedBack (p : Pooled) (label : Label) (next : State) : Nat → Option ClassPool :=
  match label with
  | .await target => giveBack p.classes (object p target)
  | _ =>
      match deleted p.sched next with
      | none => p.classes
      | some t => giveBack p.classes (object p t)

def takeId (built : State) (t id : Nat) : State :=
  { built.setTask t fun task => { task with uid := some id, status := .ready } with
    manager := Function.update built.manager id (some t) }

/-- An exception of a type of the user leaves the innermost body and is caught by the body
that awaits it. Nothing of `__await` behind `target->run()` is executed. -/
def throwOut (s : State) : Option State :=
  match s.exec with
  | none => none
  | some k =>
      match s.contexts k with
      | none => none
      | some context =>
          match context.point, (s.tasks context.inner).kind, context.awaits with
          | .user, .user, _ :: outer =>
              some (s.setContext k { context with awaits := outer, point := .user })
          | _, _, _ => none

inductive Move where
  | init (cls maxTaskNum : Nat)
  | construct (kind : Kind) (cls : Nat)
  | act (label : Label)
  | userThrow
  deriving DecidableEq

def step (p : Pooled) : Move → Option Pooled
  | .init cls maxTaskNum =>
      if p.sched.next ≠ 0 ∨ (p.classes cls).isSome ∨ maxTaskNum = 0 then none
      else some { p with
        classes := Function.update p.classes cls
          (some (ClassPool.initSetting p.counter maxTaskNum))
        counter := p.counter + maxTaskNum }
  | .construct kind cls =>
      match p.classes cls, Scheduler.step p.sched (.construct kind none) with
      | some pool, some built =>
          match pool.pop with
          | some (id, rest) => some { p with
              sched := takeId built p.sched.next id
              cls := Function.update p.cls p.sched.next cls
              classes := Function.update p.classes cls (some rest) }
          | none => some { p with
              sched := built
              cls := Function.update p.cls p.sched.next cls }
      | _, _ => none
  | .act (.construct _ _) => none
  | .act label =>
      (Scheduler.step p.sched label).map fun next =>
        { p with sched := next, classes := handedBack p label next }
  | .userThrow => (throwOut p.sched).map fun next => { p with sched := next }

/-- The promises of `SchedulerRuns`, and no exception of a type of the user. -/
def Regular (p : Pooled) : Move → Prop
  | .act label => SchedulerRuns.Regular p.sched label
  | .userThrow => False
  | _ => True

instance (p : Pooled) : (move : Move) → Decidable (Regular p move)
  | .act label => inferInstanceAs (Decidable (SchedulerRuns.Regular p.sched label))
  | .userThrow => isFalse id
  | .init _ _ | .construct _ _ => isTrue trivial

/-- The invariant: control is properly nested, every id that a task carries is its own or
that of the coroutine it is on, and the free lists hold exactly the ids that no task owns. -/
structure Accounted (p : Pooled) : Prop where
  nested : ∃ nest, SchedulerNest.Invariant p.sched nest
  settled : ∀ t id, p.sched.live t = true → (p.sched.tasks t).uid = some id →
    p.sched.manager id = some t ∨ Engaged p.sched t
  pools : TaskPool.Invariant (view p)

section Books

theorem invariant_congr {before after : Pools} (inv : TaskPool.Invariant before)
    (next : after.next = before.next) (counter : after.counter = before.counter)
    (classes : after.classes = before.classes)
    (objects : ∀ t object, after.objects t = some object →
      (object.phase ≠ .ready ∧ object.phase ≠ .limited) ∧
        (object.awaited = true → object.phase = .running) ∧
        ∃ old, before.objects t = some old ∧ object.cls = old.cls)
    (held : ∀ cls t, heldAt after cls t = heldAt before cls t) : TaskPool.Invariant after where
  bounded t outside := by
    rw [next] at outside
    cases present : after.objects t with
    | none => rfl
    | some object =>
        obtain ⟨-, -, old, there, -⟩ := objects t object present
        rw [inv.bounded t outside] at there
        cases there
  registered t object present := by
    obtain ⟨-, -, old, there, same⟩ := objects t object present
    rw [classes, same]
    exact inv.registered t old there
  untouched t object present waiting := by
    have begun := (objects t object present).1
    exact (waiting.elim begun.1 begun.2).elim
  returned t object present awaited idle :=
    absurd ((objects t object present).2.1 awaited) idle
  exact cls pool known := by
    rw [TaskPool.owned_kept cls next (held cls)]
    rw [classes] at known
    exact inv.exact cls pool known
  below cls pool known := by
    rw [classes] at known
    rw [counter]
    exact inv.below cls pool known
  apart cls other pool rest known knownOther different := by
    rw [classes] at known knownOther
    exact inv.apart cls other pool rest known knownOther different

theorem invariant_surrenders {before after : Pools} (inv : TaskPool.Invariant before)
    {target : Nat} {object : TaskObject} (live : before.objects target = some object)
    (settled : object.uniqueId = object.owned)
    (next : after.next = before.next) (counter : after.counter = before.counter)
    (classes : after.classes = giveBack before.classes object)
    (objects : ∀ t object, after.objects t = some object →
      (object.phase ≠ .ready ∧ object.phase ≠ .limited) ∧
        (object.awaited = true → object.phase = .running) ∧
        ∃ old, before.objects t = some old ∧ object.cls = old.cls)
    (held : ∀ cls t, t ≠ target → heldAt after cls t = heldAt before cls t)
    (empty : ∀ cls, heldAt after cls target = none) : TaskPool.Invariant after := by
  -- where the target stays, it stays as an object that holds nothing
  let rest : Option TaskObject := (after.objects target).map fun _ =>
    { object with phase := .running, awaited := true }
  have lent : ∀ successor ∈ rest, successor.cls = object.cls ∧ successor.awaited = true ∧
      successor.phase = .running := by
    intro successor member
    obtain ⟨-, -, rfl⟩ := Option.map_eq_some_iff.mp member
    exact ⟨rfl, rfl, rfl⟩
  refine invariant_congr (TaskPool.surrender_invariant inv live settled rest lent) next counter
    classes (fun t found present => ?_) fun cls t => ?_
  · obtain ⟨begun, awaited, old, there, same⟩ := objects t found present
    refine ⟨begun, awaited, ?_⟩
    by_cases here : t = target
    · subst here
      rw [live] at there
      cases there
      refine ⟨{ object with phase := .running, awaited := true }, ?_, same⟩
      change Function.update before.objects t rest t = _
      rw [Function.update_self]
      simp [rest, present]
    · refine ⟨old, ?_, same⟩
      change Function.update before.objects target rest t = _
      rw [Function.update_of_ne here]
      exact there
  · by_cases here : t = target
    · subst here
      rw [empty cls]
      simp only [heldAt, Function.update_self]
      cases held : rest with
      | none => rfl
      | some successor => simp [TaskObject.owned, (lent successor held).2.1]
    · rw [held cls t here]
      simp only [heldAt, Function.update_of_ne here]

end Books

section Views

variable {p p' : Pooled} {s s' : State} {nest : Nest}

def owned (s : State) (t : Nat) : Option Nat :=
  if borrows s t then none else (s.tasks t).uid

theorem borrows_congr {t : Nat} (uid : (s'.tasks t).uid = (s.tasks t).uid)
    (manager : ∀ id, (s.tasks t).uid = some id → (s'.manager id = some t ↔ s.manager id = some t)) :
    borrows s' t = borrows s t := by
  unfold borrows
  rw [uid]
  cases carried : (s.tasks t).uid with
  | none => rfl
  | some id =>
      have same := manager id carried
      by_cases here : s.manager id = some t
      · simp [here, same.mpr here]
      · have there : s'.manager id ≠ some t := fun is => here (same.mp is)
        exact (bne_iff_ne.mpr there).trans (bne_iff_ne.mpr here).symm

theorem owned_congr {t : Nat} (uid : (s'.tasks t).uid = (s.tasks t).uid)
    (manager : ∀ id, (s.tasks t).uid = some id → (s'.manager id = some t ↔ s.manager id = some t)) :
    owned s' t = owned s t := by
  unfold owned
  rw [borrows_congr uid manager, uid]

theorem owned_self {t id : Nat} (carried : (s.tasks t).uid = some id)
    (shown : s.manager id = some t) : owned s t = some id := by
  simp [owned, borrows, carried, shown]

theorem owned_lent {t id : Nat} (carried : (s.tasks t).uid = some id)
    (shown : s.manager id ≠ some t) : owned s t = none := by
  simp [owned, borrows, carried, shown]

theorem owned_blank {t : Nat} (carried : (s.tasks t).uid = none) : owned s t = none := by
  simp [owned, carried]

theorem heldAt_view (p : Pooled) (cls t : Nat) : heldAt (view p) cls t =
    if p.sched.live t = true ∧ p.cls t = cls then owned p.sched t else none := by
  unfold heldAt view
  dsimp only
  cases live : p.sched.live t with
  | false => simp
  | true =>
      by_cases same : p.cls t = cls
      · simp [object, same, owned, TaskObject.owned]
      · simp [object, same]

theorem view_objects (cls : p'.cls = p.cls)
    (fewer : ∀ t, p'.sched.live t = true → p.sched.live t = true) :
    ∀ t found, (view p').objects t = some found →
      (found.phase ≠ .ready ∧ found.phase ≠ .limited) ∧
        (found.awaited = true → found.phase = .running) ∧
        ∃ old, (view p).objects t = some old ∧ found.cls = old.cls := by
  intro t found present
  cases live : p'.sched.live t with
  | false => simp [view, live] at present
  | true =>
      simp only [view, live, if_true, Option.some.injEq] at present
      subst present
      refine ⟨?_, fun awaited => if_pos awaited, object p t, by simp [view, fewer t live], ?_⟩
      · unfold object
        dsimp only
        split <;> simp
      · exact congrFun cls t

theorem live_view {t : Nat} (live : p.sched.live t = true) :
    (view p).objects t = some (object p t) := by
  simp [view, live]

theorem view_keeps (inv : TaskPool.Invariant (view p)) (cls : p'.cls = p.cls)
    (classes : p'.classes = p.classes) (counter : p'.counter = p.counter)
    (next : p'.sched.next = p.sched.next) (live : p'.sched.live = p.sched.live)
    (same : ∀ t, p.sched.live t = true → owned p'.sched t = owned p.sched t) :
    TaskPool.Invariant (view p') := by
  refine invariant_congr inv next counter classes
    (view_objects cls fun t alive => by rwa [live] at alive) fun other t => ?_
  rw [heldAt_view, heldAt_view, live, cls]
  by_cases alive : p.sched.live t = true
  · rw [same t alive]
  · simp [alive]

theorem view_surrenders {target : Nat} (inv : TaskPool.Invariant (view p))
    (alive : p.sched.live target = true)
    (settled : (p.sched.tasks target).uid = owned p.sched target) (cls : p'.cls = p.cls)
    (classes : p'.classes = giveBack p.classes (object p target))
    (counter : p'.counter = p.counter) (next : p'.sched.next = p.sched.next)
    (fewer : ∀ t, p'.sched.live t = true → p.sched.live t = true)
    (others : ∀ t, t ≠ target → p.sched.live t = true →
      p'.sched.live t = true ∧ owned p'.sched t = owned p.sched t)
    (empty : p'.sched.live target = true → owned p'.sched target = none) :
    TaskPool.Invariant (view p') := by
  refine invariant_surrenders inv (live_view alive) settled next counter classes
    (view_objects cls fewer) (fun other t apart => ?_) fun other => ?_
  · rw [heldAt_view, heldAt_view, cls]
    by_cases before : p.sched.live t = true
    · obtain ⟨after, same⟩ := others t apart before
      rw [same]
      simp [before, after]
    · have after : p'.sched.live t ≠ true := fun still => before (fewer t still)
      simp [before, after]
  · rw [heldAt_view]
    split
    · rename_i still
      exact empty still.1
    · rfl

theorem deleted_none (live : s'.live = s.live) : deleted s s' = none := by
  simp [deleted, live]

theorem deleted_one {t : Nat} (bound : t < s.next) (alive : s.live t = true)
    (live : s'.live = Function.update s.live t false) : deleted s s' = some t := by
  have only : ∀ other, (s.live other && !s'.live other) = true ↔ other = t := by
    intro other
    by_cases same : other = t
    · subst same
      simp [live, alive]
    · simp [live, same]
  unfold deleted
  have here := (only t).mpr rfl
  cases found : (List.range s.next).find? (fun t => s.live t && !s'.live t) with
  | none =>
      rw [List.find?_eq_none] at found
      exact absurd here (found t (List.mem_range.mpr bound))
  | some other =>
      have gone := List.find?_some found
      rw [(only other).mp gone]

end Views

section Owners

variable {p : Pooled} {t id : Nat}

theorem idle_owns (acc : Accounted p) (live : p.sched.live t = true) (free : ¬Engaged p.sched t) :
    (p.sched.tasks t).uid = owned p.sched t := by
  cases carried : (p.sched.tasks t).uid with
  | none => exact (owned_blank carried).symm
  | some id =>
      have shown := (acc.settled t id live carried).resolve_right free
      exact (owned_self carried shown).symm

theorem carried_owned (acc : Accounted p) (live : p.sched.live t = true)
    (carried : (p.sched.tasks t).uid = some id) :
    ∃ o, p.sched.live o = true ∧ owned p.sched o = some id := by
  obtain ⟨nest, inv⟩ := acc.nested
  rcases acc.settled t id live carried with shown | ⟨context, there, member⟩
  · exact ⟨t, live, owned_self carried shown⟩
  · rw [carried] at there
    have sound := inv.sound id context there
    obtain ⟨alive, own⟩ := sound.owned _ (base_mem context)
    exact ⟨context.base, alive, owned_self own sound.manager⟩

theorem carried_taken (acc : Accounted p) (live : p.sched.live t = true)
    (carried : (p.sched.tasks t).uid = some id) {cls : Nat} {pool : ClassPool}
    (known : p.classes cls = some pool) : id ∉ pool.free := by
  obtain ⟨o, alive, own⟩ := carried_owned acc live carried
  exact (TaskPool.books_exact acc.pools known).2.2.1 o (object p o) id (live_view alive) own

end Owners

section Steps

variable {p p' : Pooled} {s s' : State} {nest : Nest} {label : Label}

theorem handedBack_kept (plain : ∀ t, label ≠ .await t) (live : s'.live = p.sched.live) :
    handedBack p label s' = p.classes := by
  unfold handedBack
  rw [deleted_none live]
  cases label with
  | await target => exact absurd rfl (plain target)
  | _ => rfl

theorem handedBack_deleted {t : Nat} (plain : ∀ t, label ≠ .await t) (bound : t < p.sched.next)
    (alive : p.sched.live t = true) (live : s'.live = Function.update p.sched.live t false) :
    handedBack p label s' = giveBack p.classes (object p t) := by
  unfold handedBack
  rw [deleted_one bound alive live]
  cases label with
  | await target => exact absurd rfl (plain target)
  | _ => rfl

theorem engaged_elsewhere {l t : Nat} {context : Context} (taken : Scheduler.step s label = some s')
    (apart : s.exec ≠ some l) (there : s.contexts l = some context) (member : t ∈ context.chain)
    (carried : (s'.tasks t).uid = some l) : Engaged s' t := by
  refine ⟨context, ?_, member⟩
  rw [carried]
  exact (step_leaves taken).contexts l context (fun same => apart same.symm) there

theorem engaged_place {k t : Nat} {context : Context} (there : s.contexts k = some context)
    (member : t ∈ context.chain) (carried : (s.tasks t).uid = some k) : Engaged s t := by
  refine ⟨context, ?_, member⟩
  rw [carried]
  exact there

theorem settled_cases (acc : Accounted p) {t id : Nat} (live : p.sched.live t = true)
    (carried : (p.sched.tasks t).uid = some id) : p.sched.manager id = some t ∨
      ∃ context, p.sched.contexts id = some context ∧ t ∈ context.chain := by
  rcases acc.settled t id live carried with shown | ⟨context, there, member⟩
  · exact Or.inl shown
  · rw [carried] at there
    exact Or.inr ⟨context, there, member⟩

theorem chain_same {context after : Context} (base : after.base = context.base)
    (awaits : after.awaits = context.awaits) : after.chain = context.chain :=
  (chain_of_same base awaits).1

theorem same_accounted (acc : Accounted p) (same : Same p.sched s')
    (nested : ∃ nest, SchedulerNest.Invariant s' nest) :
    Accounted { p with sched := s' } where
  nested := nested
  settled t id live carried := by
    have alive : p.sched.live t = true := by
      rw [← same.live]
      exact live
    rcases settled_cases acc alive ((same.uid t).symm.trans carried) with shown | ⟨context, there, member⟩
    · refine Or.inl ?_
      rw [same.manager]
      exact shown
    · obtain ⟨after, found, base, awaits⟩ := same.chains id context there
      refine Or.inr (engaged_place found ?_ carried)
      rw [chain_same base awaits]
      exact member
  pools := by
    refine view_keeps acc.pools rfl rfl rfl same.next same.live fun t _ => ?_
    refine owned_congr (same.uid t) fun id _ => ?_
    change s'.manager id = some t ↔ _
    rw [same.manager]

theorem left_accounted (acc : Accounted p) (inv : SchedulerNest.Invariant p.sched nest) {k : Nat}
    {context : Context} {frame : Frame} {outer : List Frame} (exec : p.sched.exec = some k)
    (found : p.sched.contexts k = some context) (ended : Left p.sched s' k context frame outer)
    (taken : Scheduler.step p.sched label = some s')
    (nested : ∃ nest, SchedulerNest.Invariant s' nest) :
    Accounted { p with sched := s' } where
  nested := nested
  settled t id live carried := by
    change (s'.tasks t).uid = some id at carried
    have kept := ended.uid t
    rw [carried] at kept
    by_cases here : t = frame.target
    · rw [if_pos here] at kept
      cases kept
    · rw [if_neg here] at kept
      have alive : p.sched.live t = true := by
        rw [← ended.live]
        exact live
      rcases settled_cases acc alive kept.symm with shown | ⟨other, there, member⟩
      · refine Or.inl ?_
        rw [ended.manager]
        exact shown
      · by_cases same : id = k
        · subst same
          rw [found] at there
          cases there
          obtain ⟨after, rest, base, awaits⟩ := ended.stack
          refine Or.inr (engaged_place rest ?_ carried)
          simpa [Context.chain, ended.awaits, base, awaits, here] using member
        · refine Or.inr (engaged_elsewhere taken ?_ there member carried)
          rw [exec]
          exact fun other => same (Option.some.inj other).symm
  pools := by
    refine view_keeps acc.pools rfl rfl rfl ended.next ended.live fun t _ => ?_
    have sound := inv.sound k context found
    by_cases here : t = frame.target
    · -- the id of the target was that of the coroutine
      subst here
      have awaited : frame.target ∈ context.awaits.map Frame.target := by simp [ended.awaits]
      have member : frame.target ∈ context.chain := List.mem_append_left _ awaited
      have blank : (s'.tasks frame.target).uid = none := by
        rw [ended.uid, if_pos rfl]
      have lent : p.sched.manager k ≠ some frame.target := by
        rw [sound.manager]
        exact fun same => target_ne_base sound.nodup awaited (Option.some.inj same).symm
      rw [owned_blank blank, owned_lent (sound.owned _ member).2 lent]
    · refine owned_congr ?_ fun id _ => ?_
      · change (s'.tasks t).uid = _
        rw [ended.uid, if_neg here]
      · change s'.manager id = some t ↔ _
        rw [ended.manager]

theorem finished_alone {k : Nat} {context : Context} (inv : SchedulerNest.Invariant s nest)
    (found : s.contexts k = some context) (ended : Finished s s' k context) :
    context.awaits = [] := by
  rcases ended.way with alone | runtime
  · exact alone
  · have placed := (inv.sound k context found).placed
    cases point : context.point with
    | cancelLoop i unsupport caller =>
        rw [point] at runtime
        cases runtime
        simp only [Placed, point, Placed.Calls] at placed
        obtain ⟨-, -, -, -, -, -, -, alone⟩ := placed
        exact alone
    | canceling i unsupport caller =>
        rw [point] at runtime
        cases runtime
        simp only [Placed, point, Placed.Calls] at placed
        obtain ⟨-, -, -, -, -, -, -, -, -, alone⟩ := placed
        exact alone
    | cancelWait unsupport caller =>
        rw [point] at runtime
        cases runtime
        simp [Placed, point] at placed
    | yielded at_ =>
        rw [point] at runtime
        cases at_ with
        | cancelWait unsupport caller =>
            cases runtime
            simp [Placed, point] at placed
        | _ => cases runtime
    | _ =>
        rw [point] at runtime
        cases runtime

theorem finished_accounted (acc : Accounted p) (inv : SchedulerNest.Invariant p.sched nest)
    (plain : ∀ t, label ≠ .await t) {k : Nat} {context : Context} (exec : p.sched.exec = some k)
    (found : p.sched.contexts k = some context) (ended : Finished p.sched s' k context)
    (taken : Scheduler.step p.sched label = some s')
    (nested : ∃ nest, SchedulerNest.Invariant s' nest) :
    Accounted { p with sched := s', classes := handedBack p label s' } := by
  have sound := inv.sound k context found
  have alone := finished_alone inv found ended
  have only : context.chain = [context.base] := by simp [Context.chain, alone]
  obtain ⟨alive, own⟩ := sound.owned _ (base_mem context)
  have before : ∀ t, s'.live t = true → p.sched.live t = true := by
    intro t live
    rcases ended.object with ⟨kept, -⟩ | ⟨gone, -⟩
    · rwa [kept] at live
    · rw [gone] at live
      by_cases here : t = context.base
      · rw [here]
        exact alive
      · rwa [Function.update_of_ne here] at live
  refine ⟨nested, fun t id live carried => ?_, ?_⟩
  · change (s'.tasks t).uid = some id at carried
    have kept := (ended.uid t).symm.trans carried
    rcases settled_cases acc (before t live) kept with shown | ⟨other, there, member⟩
    · refine Or.inl ?_
      change s'.manager id = some t
      rcases ended.object with ⟨-, same⟩ | ⟨gone, cleared⟩
      · rw [same]
        exact shown
      · have apart : id ≠ k := by
          rintro rfl
          rw [sound.manager] at shown
          have here : t = context.base := (Option.some.inj shown).symm
          change s'.live t = true at live
          rw [gone, here, Function.update_self] at live
          cases live
        rw [cleared, Function.update_of_ne apart]
        exact shown
    · by_cases same : id = k
      · subst same
        rw [found] at there
        cases there
        rw [only] at member
        have here : t = context.base := by simpa using member
        refine Or.inl ?_
        change s'.manager id = some t
        rcases ended.object with ⟨-, same⟩ | ⟨gone, -⟩
        · rw [same, here]
          exact sound.manager
        · change s'.live t = true at live
          rw [gone, here, Function.update_self] at live
          cases live
      · refine Or.inr (engaged_elsewhere taken ?_ there member carried)
        rw [exec]
        exact fun other => same (Option.some.inj other).symm
  · rcases ended.object with ⟨kept, same⟩ | ⟨gone, cleared⟩
    · refine view_keeps acc.pools rfl (handedBack_kept plain kept) rfl ended.next kept fun t _ => ?_
      refine owned_congr (ended.uid t) fun id _ => ?_
      change s'.manager id = some t ↔ _
      rw [same]
    · refine view_surrenders acc.pools alive ?_ rfl
        (handedBack_deleted plain (inv.bounded _ alive) alive gone) rfl ended.next before ?_ ?_
      · rw [own, owned_self own sound.manager]
      · intro t apart live
        refine ⟨?_, owned_congr (ended.uid t) fun id carried => ?_⟩
        · change s'.live t = true
          rw [gone, Function.update_of_ne apart]
          exact live
        · change s'.manager id = some t ↔ _
          -- no other task carries the id of this coroutine
          have elsewhere : id ≠ k := by
            rintro rfl
            rcases settled_cases acc live carried with shown | ⟨other, there, member⟩
            · rw [sound.manager] at shown
              exact apart (Option.some.inj shown).symm
            · rw [found] at there
              cases there
              rw [only] at member
              exact apart (by simpa using member)
          rw [cleared, Function.update_of_ne elsewhere]
      · intro still
        change s'.live context.base = true at still
        rw [gone, Function.update_self] at still
        cases still

theorem lent_accounted (acc : Accounted p) (inv : SchedulerNest.Invariant p.sched nest) {k : Nat}
    {context : Context} {target : Nat} (exec : p.sched.exec = some k)
    (found : p.sched.contexts k = some context) (alive : p.sched.live target = true)
    (free : ¬Engaged p.sched target) (accepted : Lent p.sched s' k context target)
    (taken : Scheduler.step p.sched (.await target) = some s')
    (nested : ∃ nest, SchedulerNest.Invariant s' nest) :
    Accounted { p with sched := s', classes := handedBack p (.await target) s' } := by
  have sound := inv.sound k context found
  have apart : context.base ≠ target := by
    rintro rfl
    exact free (engaged_place found (base_mem context) (sound.owned _ (base_mem context)).2)
  obtain ⟨after, there, chain⟩ := accepted.stack
  refine ⟨nested, fun t id live carried => ?_, ?_⟩
  · change (s'.tasks t).uid = some id at carried
    by_cases here : t = target
    · have own := accepted.uid t
      rw [if_pos here, carried] at own
      cases own
      exact Or.inr (engaged_place there (by simp [chain, here]) carried)
    · have kept := accepted.uid t
      rw [if_neg here, carried] at kept
      have alive : p.sched.live t = true := by
        rw [← accepted.live]
        exact live
      rcases settled_cases acc alive kept.symm with shown | ⟨other, place, member⟩
      · refine Or.inl ?_
        change s'.manager id = some t
        rw [accepted.manager]
        exact shown
      · -- on the same coroutine the stack has grown by the target
        by_cases same : id = k
        · subst same
          rw [found] at place
          cases place
          exact Or.inr (engaged_place there (by simp [chain, member]) carried)
        · refine Or.inr (engaged_elsewhere taken ?_ place member carried)
          rw [exec]
          exact fun other => same (Option.some.inj other).symm
  · refine view_surrenders acc.pools alive (idle_owns acc alive free) rfl rfl rfl accepted.next
      (fun t live => ?_) (fun t different live => ⟨?_, ?_⟩) fun _ => ?_
    · change s'.live t = true at live
      rwa [accepted.live] at live
    · change s'.live t = true
      rw [accepted.live]
      exact live
    · refine owned_congr ?_ fun id _ => ?_
      · change (s'.tasks t).uid = _
        rw [accepted.uid, if_neg different]
      · change s'.manager id = some t ↔ _
        rw [accepted.manager]
    · have own : (s'.tasks target).uid = some k := by
        rw [accepted.uid, if_pos rfl]
      refine owned_lent own ?_
      change s'.manager k ≠ some target
      rw [accepted.manager, sound.manager]
      exact fun same => apart (Option.some.inj same)

/-- The inline `await` of a task that has ended: its id goes back early. -/
theorem refused_accounted (acc : Accounted p) {target : Nat} (alive : p.sched.live target = true)
    (free : ¬Engaged p.sched target) (given : Refused p.sched s' target)
    (nested : ∃ nest, SchedulerNest.Invariant s' nest) :
    Accounted { p with sched := s', classes := handedBack p (.await target) s' } := by
  unfold Refused at given
  subst given
  have blank : ((p.sched.setTask target fun task => { task with uid := none }).tasks target).uid =
      none := by rw [setTask_self]
  refine ⟨nested, fun t id live carried => ?_, ?_⟩
  · dsimp only at carried
    by_cases here : t = target
    · rw [here, blank] at carried
      cases carried
    · have kept := carried
      rw [setTask_other _ _ _ here] at kept
      rcases settled_cases acc live kept with shown | ⟨other, there, member⟩
      · exact Or.inl shown
      · exact Or.inr (engaged_place there member carried)
  · refine view_surrenders acc.pools alive (idle_owns acc alive free) rfl rfl rfl rfl
      (fun t live => live) (fun t different live => ⟨live, ?_⟩) fun _ => owned_blank blank
    refine owned_congr ?_ fun _ _ => Iff.rfl
    dsimp only
    rw [setTask_other _ _ _ different]

theorem destroyed_accounted (acc : Accounted p) (inv : SchedulerNest.Invariant p.sched nest)
    (plain : ∀ t, label ≠ .await t) {target : Nat} (alive : p.sched.live target = true)
    (free : ¬Engaged p.sched target)
    (gone : s' = { p.sched with live := Function.update p.sched.live target false })
    (nested : ∃ nest, SchedulerNest.Invariant s' nest) :
    Accounted { p with sched := s', classes := handedBack p label s' } := by
  have live : s'.live = Function.update p.sched.live target false := by rw [gone]
  have before : ∀ t, s'.live t = true → p.sched.live t = true := by
    intro t still
    rw [live] at still
    by_cases here : t = target
    · rw [here]
      exact alive
    · rwa [Function.update_of_ne here] at still
  refine ⟨nested, fun t id still carried => ?_, ?_⟩
  · change (s'.tasks t).uid = some id at carried
    rw [gone] at carried
    rcases settled_cases acc (before t still) carried with shown | ⟨other, there, member⟩
    · refine Or.inl ?_
      change s'.manager id = some t
      rw [gone]
      exact shown
    · have place : s'.contexts id = some other := by
        rw [gone]
        exact there
      have still : (s'.tasks t).uid = some id := by
        rw [gone]
        exact carried
      exact Or.inr (engaged_place place member still)
  · refine view_surrenders acc.pools alive (idle_owns acc alive free) rfl
      (handedBack_deleted plain (inv.bounded _ alive) alive live) rfl (by rw [gone]) before
      (fun t different still => ⟨?_, ?_⟩) fun still => ?_
    · change s'.live t = true
      rw [live, Function.update_of_ne different]
      exact still
    · rw [gone]
      exact owned_congr rfl fun _ _ => Iff.rfl
    · change s'.live target = true at still
      rw [live, Function.update_self] at still
      cases still

end Steps

section Objects

variable {p p' : Pooled} {s built : State} {nest : Nest}

theorem contextStep_construct (s : State) (k : Nat) (context : Context) (kind : Kind)
    (uid : Option Nat) : contextStep s k context (.construct kind uid) =
      if context.point = .user ∧ (s.tasks context.inner).kind = .user then
        objectStep s (.construct kind uid)
      else none := by
  unfold contextStep
  cases context.point <;> cases (s.tasks context.inner).kind <;> simp [userStep]

theorem step_construct_object {kind : Kind}
    (taken : Scheduler.step s (.construct kind none) = some built) (uid : Option Nat) :
    Scheduler.step s (.construct kind uid) = objectStep s (.construct kind uid) := by
  unfold Scheduler.step at taken ⊢
  cases exec : s.exec with
  | none =>
      rw [exec] at taken
      simp only [loopStep] at taken ⊢
      split at taken
      · rename_i outside
        rw [if_pos outside]
      · cases taken
  | some k =>
      rw [exec] at taken
      dsimp only at taken ⊢
      cases found : s.contexts k with
      | none =>
          rw [found] at taken
          cases taken
      | some context =>
          rw [found] at taken
          dsimp only at taken ⊢
          rw [contextStep_construct] at taken ⊢
          split at taken
          · rename_i user
            rw [if_pos user]
          · cases taken

theorem step_construct {kind : Kind} (taken : Scheduler.step s (.construct kind none) = some built) :
    (built = { s with
      tasks := Function.update s.tasks s.next { kind := kind }
      live := Function.update s.live s.next true
      next := s.next + 1 }) ∧
      ∀ id, (∀ t < s.next, s.live t = true → (s.tasks t).uid ≠ some id) →
        Scheduler.step s (.construct kind (some id)) = some (takeId built s.next id) := by
  have same := step_construct_object taken
  have plain : ∀ uid, objectStep s (.construct kind uid) = construct s kind uid := by
    intro uid
    rw [same none] at taken
    cases kind with
    | group which children =>
        cases children with
        | nil => cases taken
        | cons child others => rfl
    | _ => rfl
  rw [same none, plain] at taken
  cases taken
  refine ⟨rfl, fun id spare => ?_⟩
  have free : ¬∃ t < s.next, s.live t ∧ (s.tasks t).uid = some id := by
    rintro ⟨t, bound, live, carried⟩
    exact spare t bound live carried
  rw [same (some id), plain, construct, if_neg free]
  simp only [takeId, State.setTask, Function.update_self, Function.update_idem]

def registers (s : State) (t : Nat) : Option Nat → Nat → Option Nat
  | none => s.manager
  | some id => Function.update s.manager id (some t)

structure Built (s s' : State) (uid : Option Nat) : Prop where
  next : s'.next = s.next + 1
  live : s'.live = Function.update s.live s.next true
  fresh : (s'.tasks s.next).uid = uid
  others : ∀ t, t ≠ s.next → s'.tasks t = s.tasks t
  contexts : s'.contexts = s.contexts
  manager : s'.manager = registers s s.next uid
  spare : ∀ t, s.live t = true → (s.tasks t).uid ≠ none → (s.tasks t).uid ≠ uid

theorem built_manager {s' : State} {uid : Option Nat} (built : Built s s' uid) {t id : Nat}
    (old : s.live t = true) (carried : (s.tasks t).uid = some id) :
    s'.manager id = s.manager id := by
  have spare := built.spare t old (by simp [carried])
  rw [built.manager]
  cases uid with
  | none => rfl
  | some given =>
      refine Function.update_of_ne ?_ _ _
      rintro rfl
      exact spare carried

theorem built_accounted (acc : Accounted p) {cls : Nat} {pool : ClassPool} {s' : State} {uid : Option Nat} {phase : TaskPool.Phase}
    {classes : Nat → Option ClassPool} (known : p.classes cls = some pool)
    (pools : TaskPool.construct (view p) cls pool = { view p with
      initialized := true
      classes := classes
      objects := Function.update (view p).objects (view p).next (some ⟨cls, uid, phase, false⟩)
      next := (view p).next + 1 })
    (built : Built p.sched s' uid) (nested : ∃ nest, SchedulerNest.Invariant s' nest) :
    Accounted { p with
      sched := s'
      cls := Function.update p.cls p.sched.next cls
      classes := classes } := by
  have old : ∀ t, t ≠ p.sched.next → s'.live t = p.sched.live t := by
    intro t apart
    rw [built.live, Function.update_of_ne apart]
  have shown : ∀ id, uid = some id → s'.manager id = some p.sched.next := by
    rintro id rfl
    rw [built.manager]
    exact Function.update_self ..
  refine ⟨nested, fun t id live carried => ?_, ?_⟩
  · change (s'.tasks t).uid = some id at carried
    change s'.live t = true at live
    by_cases here : t = p.sched.next
    · rw [here, built.fresh] at carried
      rw [here]
      exact Or.inl (shown id carried)
    · rw [old t here] at live
      rw [built.others t here] at carried
      rcases settled_cases acc live carried with own | ⟨context, there, member⟩
      · refine Or.inl ?_
        change s'.manager id = some t
        rw [built_manager built live carried]
        exact own
      · have place : s'.contexts id = some context := by
          rw [built.contexts]
          exact there
        refine Or.inr (engaged_place place member ?_)
        rw [built.others t here]
        exact carried
  · have fresh := TaskPool.construct_invariant acc.pools known
    rw [pools] at fresh
    refine invariant_congr fresh built.next rfl rfl (fun t found present => ?_) fun other t => ?_
    · dsimp only [view] at present ⊢
      split at present
      · rename_i live
        cases present
        refine ⟨?_, fun awaited => if_pos awaited, ?_⟩
        · unfold object
          dsimp only
          split <;> simp
        · by_cases here : t = p.sched.next
          · refine ⟨_, by rw [here, Function.update_self], ?_⟩
            simp [object, here]
          · rw [old t here] at live
            refine ⟨object p t, ?_, ?_⟩
            · rw [Function.update_of_ne here, if_pos live]
            · simp [object, Function.update_of_ne here]
      · cases present
    · rw [heldAt_view]
      dsimp only
      by_cases here : t = p.sched.next
      · subst here
        have own : owned s' p.sched.next = uid := by
          cases uid with
          | none => exact owned_blank built.fresh
          | some id => exact owned_self built.fresh (shown id rfl)
        simp [heldAt, view, built.live, own, TaskObject.owned]
      · have before := heldAt_view p other t
        simp only [old t here, heldAt, view, Function.update_of_ne here] at before ⊢
        rw [before]
        by_cases live : p.sched.live t = true
        · have same : owned s' t = owned p.sched t := by
            refine owned_congr (by rw [built.others t here]) fun id carried => ?_
            rw [built_manager built live carried]
          rw [same]
        · simp [live]

end Objects

section Runs

variable {p p' : Pooled} {move : Move} {moves : List Move}

theorem initial_accounted : Accounted {} where
  nested := ⟨[], initial_invariant⟩
  settled t id live := by cases live
  pools := by
    refine invariant_congr TaskPool.empty_invariant rfl rfl rfl (fun t found present => ?_)
      fun cls t => rfl
    cases present

theorem init_accounted (acc : Accounted p) {cls maxTaskNum : Nat}
    (unset : p.classes cls = none) :
    Accounted { p with
      classes := Function.update p.classes cls
        (some (ClassPool.initSetting p.counter maxTaskNum))
      counter := p.counter + maxTaskNum } where
  nested := acc.nested
  settled := acc.settled
  pools := by
    have grown := TaskPool.init_invariant acc.pools cls maxTaskNum unset
    refine invariant_congr grown rfl rfl rfl (fun t found present => ?_) fun _ _ => rfl
    exact view_objects (p := p) rfl (fun _ live => live) t found present

theorem construct_accounted (acc : Accounted p) {kind : Kind} {cls : Nat}
    (taken : step p (.construct kind cls) = some p') : Accounted p' := by
  obtain ⟨nest, inv⟩ := acc.nested
  unfold step at taken
  dsimp only at taken
  split at taken
  · rename_i pool plain known constructed
    obtain ⟨blank, named⟩ := step_construct constructed
    split at taken
    · rename_i id rest popped
      have free : pool.free = id :: rest.free :=
        ClassPool.free_pop pool rest id (acc.pools.exact cls pool known).1 popped
      have spare : ∀ t, p.sched.live t = true → (p.sched.tasks t).uid ≠ some id := by
        intro t live carried
        exact carried_taken acc live carried known (by simp [free])
      have allowed : SchedulerRuns.Regular p.sched (.construct kind (some id)) :=
        ⟨trivial, trivial, trivial⟩
      obtain ⟨after, kept, -⟩ := step_kept inv allowed (named id fun t _ => spare t)
      have pools : TaskPool.construct (view p) cls pool = { view p with
          initialized := true
          classes := Function.update p.classes cls (some rest)
          objects := Function.update (view p).objects (view p).next
            (some ⟨cls, some id, .ready, false⟩)
          next := (view p).next + 1 } := by
        simp only [TaskPool.construct, popped]
        rfl
      cases taken
      subst blank
      refine built_accounted acc known pools
        ⟨rfl, rfl, ?_, fun t apart => ?_, rfl, rfl, fun t live _ => spare t live⟩ ⟨after, kept⟩
      · simp [takeId]
      · simp [takeId, State.setTask, Function.update_of_ne apart]
    · rename_i empty
      have allowed : SchedulerRuns.Regular p.sched (.construct kind none) :=
        ⟨trivial, trivial, trivial⟩
      obtain ⟨after, kept, -⟩ := step_kept inv allowed constructed
      have pools : TaskPool.construct (view p) cls pool = { view p with
          initialized := true
          classes := p.classes
          objects := Function.update (view p).objects (view p).next
            (some ⟨cls, none, .limited, false⟩)
          next := (view p).next + 1 } := by
        simp only [TaskPool.construct, empty]
        rfl
      cases taken
      subst blank
      refine built_accounted acc known pools
        ⟨rfl, rfl, ?_, fun t apart => ?_, rfl, rfl, fun t _ carried => carried⟩ ⟨after, kept⟩
      · simp
      · simp [Function.update_of_ne apart]
  · cases taken

theorem step_act {label : Label} (taken : step p (.act label) = some p') :
    (∀ kind uid, label ≠ .construct kind uid) ∧ ∃ s', Scheduler.step p.sched label = some s' ∧
      { p with sched := s', classes := handedBack p label s' } = p' := by
  cases label with
  | construct kind uid => cases taken
  | _ => exact ⟨by simp, Option.map_eq_some_iff.mp taken⟩

/-- The step lemma: a regular step keeps the books in order. -/
theorem step_accounted (acc : Accounted p) (regular : Regular p move)
    (taken : step p move = some p') : Accounted p' := by
  obtain ⟨nest, inv⟩ := acc.nested
  cases move with
  | init cls maxTaskNum =>
      simp only [step] at taken
      split at taken
      · cases taken
      · rename_i refused
        cases taken
        refine init_accounted acc ?_
        cases present : p.classes cls with
        | none => rfl
        | some pool => simp [present] at refused
  | construct kind cls => exact construct_accounted acc taken
  | userThrow => cases regular
  | act label =>
      obtain ⟨objects, s', moved, rfl⟩ := step_act taken
      obtain ⟨after, kept, -⟩ := step_kept inv regular moved
      have nested : ∃ nest, SchedulerNest.Invariant s' nest := ⟨after, kept⟩
      cases step_changes inv objects moved with
      | same _ plain same =>
          rw [handedBack_kept plain same.live]
          exact same_accounted acc same nested
      | left _ plain k context frame outer exec found ended =>
          rw [handedBack_kept plain ended.live]
          exact left_accounted acc inv exec found ended moved nested
      | finished _ plain k context exec found ended =>
          exact finished_accounted acc inv plain exec found ended moved nested
      | lent k context target exec found alive unstarted accepted =>
          exact lent_accounted acc inv exec found alive regular.1.1 accepted moved nested
      | refused target alive started given =>
          exact refused_accounted acc alive regular.1.1 given nested
      | destroyed _ t way alive gone =>
          have free : ¬Engaged p.sched t := by
            rcases way with rfl | rfl <;> exact regular.1.1
          refine destroyed_accounted acc inv ?_ alive free gone nested
          rcases way with rfl | rfl <;> simp

/-- The run lemma: along a regular schedule the books are in order. -/
theorem accounted_along (along : Along step Regular {} moves)
    (run : replay step {} moves = some p) : Accounted p :=
  replay_invariant Accounted (fun _ _ _ acc regular taken => step_accounted acc regular taken)
    initial_accounted along run

end Runs

end Cocoflow.PooledScheduler
