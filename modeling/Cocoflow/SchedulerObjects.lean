import Mathlib.Logic.Function.Basic
import Mathlib.Data.List.Basic
import Cocoflow.SchedulerSteps

/-!
Steps that touch only tasks nobody runs: the statements of a client about task objects, and
the first loop of `all_of::run` and `any_of::run`, which takes the children in.
-/

namespace Cocoflow.SchedulerObjects

open LabelledRuns Scheduler SchedulerNest SchedulerLocal SchedulerSteps

structure Objects (s s' : State) : Prop where
  contexts : s'.contexts = s.contexts
  exec : s'.exec = s.exec
  clock : s'.clock = s.clock
  ended : s'.done = s.done
  pending : s'.armed = s.armed
  raised : s'.signal = s.signal
  reading : s'.current = s.current
  allocated : s.next ≤ s'.next
  change : ∀ t, s'.tasks t = s.tasks t ∧ s'.live t = s.live t ∨
    Idle s t ∧ (Unclaimed s t ∨ Alike (s.tasks t) (s'.tasks t) ∧
      (s'.tasks t).finishTo = (s.tasks t).finishTo ∧ s'.live t = s.live t)
  kind : ∀ t, s.live t = true → (s'.tasks t).kind = (s.tasks t).kind
  manager : ∀ l other, s.contexts l = some other → s'.manager l = s.manager l
  fresh : ∀ t, s'.live t = true → (s'.tasks t).status = .ready →
    ∃ j, (s'.tasks t).uid = some j ∧ s'.manager j = some t ∧ s.contexts j = none
  unused : ∀ t, s'.live t = true →
    (s'.tasks t).status = .ready ∨ (s'.tasks t).status = .limited →
      (s'.tasks t).reuse = none ∧ (s'.tasks t).completedId = none
  running : ∀ t, s'.live t = true → (s'.tasks t).status = .running →
    s.live t = true ∧ (s.tasks t).status = .running
  completed : ∀ t, (s'.tasks t).status = .completed ↔ (s.tasks t).status = .completed
  bounded : ∀ t, s'.live t = true → t < s'.next

section Frame

variable {s s' : State} {nest : Nest}

theorem engaged_same (objects : Objects s s') {l : Nat} {other : Context} {t : Nat}
    (there : s.contexts l = some other) (member : t ∈ other.chain) :
    s'.tasks t = s.tasks t ∧ s'.live t = s.live t := by
  rcases objects.change t with same | ⟨alone, -⟩
  · exact same
  · exact absurd member (alone l other there)

-- The rule for steps on task objects.
theorem inv_objects (inv : Invariant s nest) (objects : Objects s s')
    (elsewhere : ∀ l other, s.contexts l = some other → other.point ≠ .goal) :
    Invariant s' nest := by
  have contexts := objects.contexts
  have nested : Nested s' nest := by
    refine nested_congr inv.nested (fun l mode below _ context found => ⟨context, ?_, rfl, rfl⟩)
      (fun l _ => by rw [contexts]) (fun l other there => ?_)
    · rw [contexts]
      exact found
    · rw [(engaged_same objects there (base_mem other)).1,
        (engaged_same objects there (inner_mem other)).1]
      exact ⟨rfl, rfl⟩
  refine { nested := nested, exec := objects.exec.trans inv.exec, sound := ?sound,
           fresh := fun t live ready => by rw [contexts]; exact objects.fresh t live ready,
           unused := objects.unused, running := ?running, bounded := objects.bounded,
           done := fun t => by rw [objects.ended, objects.completed t]; exact inv.done t,
           past := fun t member => ?past, armed := ?armed, signal := ?signal, current := ?current }
  case sound =>
      intro l other there
      rw [contexts] at there
      refine sound_frame (inv.sound l other there)
        (fun t member => engaged_same objects there member) ?_ (elsewhere l other there)
        (objects.manager l other there) (Nat.le_of_eq objects.clock.symm) ?_ ?_ ?_
      · intro which children kind open_ t child
        rcases objects.change t with ⟨same, live⟩ | ⟨-, unclaimed | ⟨alike, finish, live⟩⟩
        · exact ⟨live, by rw [same], Or.inl ⟨by rw [same], fun _ => by rw [same]⟩⟩
        · exact absurd child (unclaimed l other which children there kind open_)
        · exact ⟨live, finish, Or.inl alike⟩
      · rintro q - ⟨parent, which, children, found, kind, open_, earlier, member⟩
        refine ⟨parent, which, children, by rw [contexts]; exact found, ?_, open_, earlier, member⟩
        rw [(engaged_same objects found (inner_mem parent)).1]
        exact kind
      · rintro ⟨q, parent, finish, found, inside⟩
        refine ⟨q, parent, ?_, by rw [contexts]; exact found, inside⟩
        rw [(engaged_same objects there (base_mem other)).1]
        exact finish
      · intro which children _ _ _
        rw [objects.ended]
  case running =>
      intro t live running
      obtain ⟨alive, runs⟩ := objects.running t live running
      rw [contexts]
      exact inv.running t alive runs
  case past =>
      rw [objects.ended] at member
      exact Nat.lt_of_lt_of_le (inv.past t member) objects.allocated
  case armed =>
      intro t armed
      rw [objects.pending] at armed
      obtain ⟨event, l, other, there, inner, point, unlive⟩ := inv.armed t armed
      refine ⟨?_, l, other, by rw [contexts]; exact there, inner, point, unlive⟩
      rw [← inner, (engaged_same objects there (inner_mem other)).1, inner]
      exact event
  case signal =>
      rw [objects.raised, contexts]
      exact inv.signal
  case current =>
      intro l other running there
      rw [objects.exec] at running
      rw [contexts] at there
      rw [objects.reading]
      exact inv.current l other running there

end Frame

section Statements

variable {s : State} {nest : Nest} {t : Nat}

theorem objects_destroy (inv : Invariant s nest) (alone : Idle s t) (unclaimed : Unclaimed s t) :
    Objects s { s with live := Function.update s.live t false } := by
  have before {other : Nat} (live : Function.update s.live t false other = true) :
      s.live other = true := by
    by_cases same : other = t
    · rw [same, Function.update_self] at live
      cases live
    · rwa [Function.update_of_ne same] at live
  refine ⟨rfl, rfl, rfl, rfl, rfl, rfl, rfl, Nat.le_refl _, ?_, fun _ _ => rfl, fun _ _ _ => rfl,
    fun other live => inv.fresh other (before live), fun other live => inv.unused other (before live),
    fun other live running => ⟨before live, running⟩, fun _ => Iff.rfl,
    fun other live => inv.bounded other (before live)⟩
  intro other
  by_cases same : other = t
  · subst same
    exact Or.inr ⟨alone, Or.inl unclaimed⟩
  · exact Or.inl ⟨rfl, Function.update_of_ne same _ _⟩

theorem objects_write (inv : Invariant s nest) {write : Task → Task} (alone : Idle s t)
    (kept : ∀ task : Task, (write task).kind = task.kind ∧ (write task).reuse = task.reuse ∧
      (write task).completedId = task.completedId ∧ (write task).status = task.status)
    (seen : Unclaimed s t ∨ ∀ task : Task, (write task).finishTo = task.finishTo ∧
      (write task).blockTo = task.blockTo)
    (uid : (s.tasks t).status = .ready → (write (s.tasks t)).uid = (s.tasks t).uid) :
    Objects s (s.setTask t write) := by
  have fields (other : Nat) : ((s.setTask t write).tasks other).kind = (s.tasks other).kind ∧
      ((s.setTask t write).tasks other).reuse = (s.tasks other).reuse ∧
      ((s.setTask t write).tasks other).completedId = (s.tasks other).completedId ∧
      ((s.setTask t write).tasks other).status = (s.tasks other).status := by
    by_cases same : other = t
    · rw [same, setTask_self]
      exact kept _
    · rw [setTask_other _ _ _ same]
      exact ⟨rfl, rfl, rfl, rfl⟩
  refine { contexts := rfl, exec := rfl, clock := rfl, ended := rfl, pending := rfl, raised := rfl,
           reading := rfl, allocated := Nat.le_refl _, change := ?changes,
           kind := fun other _ => (fields other).1, manager := fun _ _ _ => rfl, fresh := ?fresh,
           unused := ?unused, running := ?running, completed := ?completed, bounded := inv.bounded }
  case changes =>
      intro other
      by_cases same : other = t
      · subst same
        rcases seen with unclaimed | links
        · exact Or.inr ⟨alone, Or.inl unclaimed⟩
        · refine Or.inr ⟨alone, Or.inr ⟨⟨(fields other).2.2.2, fun _ => ?_⟩, ?_, rfl⟩⟩
          · rw [setTask_self, (links _).2]
          · rw [setTask_self, (links _).1]
      · exact Or.inl ⟨setTask_other _ _ _ same, rfl⟩
  case fresh =>
      intro other live ready
      rw [(fields other).2.2.2] at ready
      obtain ⟨j, own, managed, free⟩ := inv.fresh other live ready
      refine ⟨j, ?_, managed, free⟩
      by_cases same : other = t
      · subst same
        rw [setTask_self, uid ready]
        exact own
      · rw [setTask_other _ _ _ same]
        exact own
  case unused =>
      intro other live unstarted
      rw [(fields other).2.2.2] at unstarted
      rw [(fields other).2.1, (fields other).2.2.1]
      exact inv.unused other live unstarted
  case running =>
      intro other live running
      rw [(fields other).2.2.2] at running
      exact ⟨live, running⟩
  case completed =>
      intro other
      rw [(fields other).2.2.2]

theorem next_spare (inv : Invariant s nest) : Idle s s.next ∧ Unclaimed s s.next := by
  constructor
  · intro l other there member
    have bound := inv.bounded _ ((inv.sound l other there).owned _ member).1
    omega
  · intro l other which children there kind open_ member
    have family := placed_family (inv.sound l other there).placed kind open_
    have bound := inv.bounded _ (family.live _ member)
    omega

theorem next_uncompleted (inv : Invariant s nest) : (s.tasks s.next).status ≠ .completed := by
  intro completed
  have bound := inv.past _ ((inv.done _).mpr completed)
  omega

theorem unowned_id (inv : Invariant s nest) {id : Nat}
    (spare : ∀ t, s.live t = true → (s.tasks t).uid ≠ some id) : s.contexts id = none := by
  cases there : s.contexts id with
  | none => rfl
  | some other =>
      obtain ⟨live, own⟩ := (inv.sound id other there).owned _ (base_mem other)
      exact absurd own (spare _ live)

theorem objects_new (inv : Invariant s nest) {task : Task} {manager : Nat → Option Nat}
    (blank : task.reuse = none ∧ task.completedId = none)
    (way : task.status = .limited ∧ manager = s.manager ∨
      ∃ id, task.status = .ready ∧ task.uid = some id ∧
        manager = Function.update s.manager id (some s.next) ∧
        ∀ t, s.live t = true → (s.tasks t).uid ≠ some id) :
    Objects s { s with
      tasks := Function.update s.tasks s.next task
      live := Function.update s.live s.next true
      manager := manager
      next := s.next + 1 } := by
  obtain ⟨alone, unclaimed⟩ := next_spare inv
  have old {other : Nat} (live : s.live other = true) : other ≠ s.next := by
    have bound := inv.bounded other live
    omega
  have before {other : Nat} (different : other ≠ s.next)
      (live : Function.update s.live s.next true other = true) : s.live other = true := by
    rwa [Function.update_of_ne different] at live
  refine { contexts := rfl, exec := rfl, clock := rfl, ended := rfl, pending := rfl, raised := rfl,
           reading := rfl, allocated := Nat.le_succ _, change := ?change, kind := ?kind,
           manager := ?manager, fresh := ?fresh, unused := ?unused, running := ?running,
           completed := ?completed, bounded := ?bounded } <;>
    dsimp only
  case change =>
      intro other
      by_cases same : other = s.next
      · subst same
        exact Or.inr ⟨alone, Or.inl unclaimed⟩
      · rw [Function.update_of_ne same, Function.update_of_ne same]
        exact Or.inl ⟨rfl, rfl⟩
  case kind =>
      intro other live
      rw [Function.update_of_ne (old live)]
  case manager =>
      intro l other there
      rcases way with ⟨-, rfl⟩ | ⟨id, -, -, rfl, spare⟩
      · rfl
      · refine Function.update_of_ne ?_ _ _
        rintro rfl
        rw [unowned_id inv spare] at there
        cases there
  case fresh =>
      intro other live ready
      by_cases same : other = s.next
      · subst same
        rw [Function.update_self] at ready ⊢
        rcases way with ⟨limited, -⟩ | ⟨id, -, own, rfl, spare⟩
        · rw [limited] at ready
          cases ready
        · exact ⟨id, own, Function.update_self .., unowned_id inv spare⟩
      · rw [Function.update_of_ne same] at ready ⊢
        obtain ⟨j, own, managed, free⟩ := inv.fresh other (before same live) ready
        refine ⟨j, own, ?_, free⟩
        rcases way with ⟨-, rfl⟩ | ⟨id, -, -, rfl, spare⟩
        · exact managed
        · rw [Function.update_of_ne]
          · exact managed
          · rintro rfl
            exact spare other (before same live) own
  case unused =>
      intro other live unstarted
      by_cases same : other = s.next
      · subst same
        rw [Function.update_self]
        exact blank
      · rw [Function.update_of_ne same] at unstarted ⊢
        exact inv.unused other (before same live) unstarted
  case running =>
      intro other live running
      by_cases same : other = s.next
      · subst same
        rw [Function.update_self] at running
        rcases way with ⟨limited, -⟩ | ⟨id, ready, -⟩
        · rw [limited] at running
          cases running
        · rw [ready] at running
          cases running
      · rw [Function.update_of_ne same] at running
        exact ⟨before same live, running⟩
  case completed =>
      intro other
      by_cases same : other = s.next
      · subst same
        rw [Function.update_self]
        refine ⟨fun completed => ?_, fun completed => absurd completed (next_uncompleted inv)⟩
        rcases way with ⟨limited, -⟩ | ⟨id, ready, -⟩
        · rw [limited] at completed
          cases completed
        · rw [ready] at completed
          cases completed
      · rw [Function.update_of_ne same]
  case bounded =>
      intro other live
      by_cases same : other = s.next
      · omega
      · exact Nat.lt_succ_of_lt (inv.bounded other (before same live))

theorem objects_construct {s' : State} (inv : Invariant s nest) {kind : Kind} {uid : Option Nat}
    (built : construct s kind uid = some s') : Objects s s' := by
  cases uid with
  | none =>
      cases built
      exact objects_new inv ⟨rfl, rfl⟩ (Or.inl ⟨rfl, rfl⟩)
  | some id =>
      simp only [construct] at built
      split at built
      · cases built
      · rename_i spare
        cases built
        refine objects_new inv ⟨rfl, rfl⟩ (Or.inr ⟨id, rfl, rfl, rfl, fun t live own => ?_⟩)
        exact spare ⟨t, inv.bounded t live, live, own⟩

end Statements

def adopts (s : State) (uid : Option Nat) (adopted : List Nat) : State :=
  { s with
    tasks := fun t => if t ∈ adopted then { s.tasks t with blockTo := uid, finishTo := uid }
      else s.tasks t }

section Adoption

variable {s : State} {uid : Option Nat}

theorem adopts_nil : adopts s uid [] = s := by
  simp [adopts]

theorem adopts_cons (child : Nat) (others : List Nat) :
    adopts (s.setTask child fun task => { task with blockTo := uid, finishTo := uid }) uid others =
      adopts s uid (child :: others) := by
  unfold adopts State.setTask
  congr 1
  funext t
  by_cases same : t = child
  · subst same
    simp
  · simp [same]

theorem adoptChildren_spec {s' : State} {children : List Nat} {all : Bool}
    (adopted : adoptChildren s uid children = some (s', all)) :
    ∃ taken others, children = taken ++ others ∧ s' = adopts s uid taken ∧
      (∀ t ∈ taken, s.live t = true ∧ (s.tasks t).status = .ready) ∧
      (all = true → others = []) := by
  induction children generalizing s with
  | nil =>
      cases adopted
      exact ⟨[], [], rfl, adopts_nil.symm, by simp, fun _ => rfl⟩
  | cons child others ih =>
      unfold adoptChildren at adopted
      split at adopted
      · cases adopted
      · rename_i live
        split at adopted
        · cases adopted
          exact ⟨[], child :: others, rfl, adopts_nil.symm, by simp, by simp⟩
        · rename_i ready
          obtain ⟨taken, left, split, same, fit, whole⟩ := ih adopted
          refine ⟨child :: taken, left, by rw [split]; rfl, same.trans (adopts_cons child taken),
            fun t member => ?_, whole⟩
          rcases List.mem_cons.mp member with rfl | later
          · exact ⟨by simpa using live, by simpa using ready⟩
          · obtain ⟨alive, untouched⟩ := fit t later
            refine ⟨alive, ?_⟩
            by_cases here : t = child
            · subst here
              rw [setTask_self] at untouched
              exact untouched
            · rwa [setTask_other _ _ _ here] at untouched

theorem ready_idle {nest : Nest} (inv : Invariant s nest) {t : Nat}
    (ready : (s.tasks t).status = .ready) : Idle s t := by
  intro l other there member
  exact (engaged_status inv there member).1 ready

theorem adopts_fields (adopted : List Nat) (t : Nat) :
    ((adopts s uid adopted).tasks t).kind = (s.tasks t).kind ∧
      ((adopts s uid adopted).tasks t).status = (s.tasks t).status ∧
      ((adopts s uid adopted).tasks t).uid = (s.tasks t).uid ∧
      ((adopts s uid adopted).tasks t).reuse = (s.tasks t).reuse ∧
      ((adopts s uid adopted).tasks t).completedId = (s.tasks t).completedId ∧
      ((adopts s uid adopted).tasks t).uninterruptable = (s.tasks t).uninterruptable := by
  unfold adopts
  dsimp only
  split
  · exact ⟨rfl, rfl, rfl, rfl, rfl, rfl⟩
  · exact ⟨rfl, rfl, rfl, rfl, rfl, rfl⟩

theorem objects_adopts {nest : Nest} (inv : Invariant s nest) {adopted : List Nat}
    (ready : ∀ t ∈ adopted, (s.tasks t).status = .ready)
    (unclaimed : ∀ t ∈ adopted, Unclaimed s t) : Objects s (adopts s uid adopted) := by
  have fields := @adopts_fields s uid adopted
  refine { contexts := rfl, exec := rfl, clock := rfl, ended := rfl, pending := rfl, raised := rfl,
           reading := rfl, allocated := Nat.le_refl _, change := ?change,
           kind := fun t _ => (fields t).1, manager := fun _ _ _ => rfl, fresh := ?fresh,
           unused := ?unused, running := ?running, completed := ?completed, bounded := inv.bounded }
  case change =>
      intro t
      by_cases member : t ∈ adopted
      · exact Or.inr ⟨ready_idle inv (ready t member), Or.inl (unclaimed t member)⟩
      · exact Or.inl ⟨if_neg member, rfl⟩
  case fresh =>
      intro t live ready
      rw [(fields t).2.1] at ready
      rw [(fields t).2.2.1]
      exact inv.fresh t live ready
  case unused =>
      intro t live unstarted
      rw [(fields t).2.1] at unstarted
      rw [(fields t).2.2.2.1, (fields t).2.2.2.2.1]
      exact inv.unused t live unstarted
  case running =>
      intro t live running
      rw [(fields t).2.1] at running
      exact ⟨live, running⟩
  case completed =>
      intro t
      rw [(fields t).2.1]

variable {k : Nat} {mode : Mode} {rest : Nest} {context : Context}

theorem inv_adopts (inv : Invariant s ((k, mode) :: rest)) (found : s.contexts k = some context)
    (enters : context.point = .enter) {adopted : List Nat}
    (ready : ∀ t ∈ adopted, (s.tasks t).status = .ready)
    (unclaimed : ∀ t ∈ adopted, Unclaimed s t) :
    Invariant (adopts s uid adopted) ((k, mode) :: rest) := by
  refine inv_objects inv (objects_adopts inv ready unclaimed) fun l other there => ?_
  by_cases same : l = k
  · subst same
    rw [found] at there
    cases there
    simp [enters]
  · exact other_not_goal inv found same there

theorem step_adopts_all (inv : Invariant s ((k, mode) :: rest))
    (found : s.contexts k = some context) (enters : context.point = .enter)
    {which : Combinator} {children : List Nat}
    (kind : (s.tasks context.inner).kind = .group which children) (nodup : children.Nodup)
    (fit : ∀ t ∈ children, s.live t = true ∧ (s.tasks t).status = .ready)
    (unclaimed : ∀ t ∈ children, Unclaimed s t) :
    Invariant ((adopts s (some k) children).moveTo k context (.starting 0 children.length))
      ((k, mode) :: rest) := by
  have adopted : Invariant (adopts s (some k) children) ((k, mode) :: rest) :=
    inv_adopts inv found enters (fun t member => (fit t member).2) unclaimed
  have placed := placed_of adopted found
  simp only [Placed, enters] at placed
  obtain ⟨live, unchosen, -⟩ := placed
  obtain ⟨awake, calm⟩ := calm_of adopted found (Or.inl live)
  refine inv_moveTo adopted found awake calm (by simp [enters]) (by simp)
    (by simp [enters, opened]) ?_
  have taken (t : Nat) (member : t ∈ children) : (adopts s (some k) children).tasks t =
      { s.tasks t with blockTo := some k, finishTo := some k } := if_pos member
  refine ⟨live, which, children, (adopts_fields children _).1.trans kind, ⟨nodup, fun t member =>
    (fit t member).1, fun t member => ?_, fun t member => ?_⟩, Nat.zero_le _, ?_, ?_⟩
  · rw [moveTo_tasks, taken t member]
  · exact ready_idle inv (fit t member).2 k context found
  · intro t member
    rw [moveTo_tasks, taken t member]
    exact ⟨(fit t member).2, rfl⟩
  · cases which with
    | allOf => simp [Progress, unfinished, Uncanceled]
    | anyOf => exact ⟨by simp [NoneCompleted], unchosen⟩

theorem statuses_unready (inv : Invariant s ((k, mode) :: rest))
    (found : s.contexts k = some context) (enters : context.point = .enter) :
    Statuses ((s.setStatus context.inner .childUnready).moveTo k context .returning)
      { context with point := .returning } mode := by
  have sound := inv.sound k context found
  rw [modeOf_head] at sound
  have placed := sound.placed
  simp only [Placed, enters] at placed
  obtain ⟨live, -, token⟩ := placed
  have uncancelled : mode ≠ .cancelling := by
    obtain ⟨token, rfl⟩ := live
    simp
  have statuses := sound.statuses
  unfold Statuses at statuses ⊢
  rw [if_neg uncancelled] at statuses ⊢
  have other {t : Nat} (apart : t ≠ context.inner) :
      ((s.setStatus context.inner .childUnready).moveTo k context .returning).tasks t =
        s.tasks t := by
    rw [moveTo_tasks, State.setStatus, setTask_other _ _ _ apart]
  have finish (t : Nat) : (((s.setStatus context.inner .childUnready).moveTo k context
      .returning).tasks t).finishTo = (s.tasks t).finishTo := by
    by_cases here : t = context.inner
    · rw [here, moveTo_tasks, State.setStatus, setTask_self]
    · rw [other here]
  intro t member
  rw [moves_chain] at member
  by_cases here : t = context.inner
  · subst here
    refine Or.inr (Or.inl ⟨?_, rfl, rfl, fun base => ?_⟩)
    · rw [moveTo_tasks, State.setStatus, setTask_self]
    · have alone : context.awaits = [] := by
        rcases inner_base_or_target context with ⟨alone, -⟩ | target
        · exact alone
        · exact absurd base (target_ne_base sound.nodup target)
      rw [finish, base]
      by_cases reports : (s.tasks context.base).finishTo = none
      · exact Or.inl reports
      · exact Or.inr (token alone reports)
  · rcases statuses t member with running | unready | flagged
    · exact Or.inl (by rw [other here]; exact running)
    · exact absurd unready.2.1 here
    · obtain ⟨status, protect, token, sheltered, inside, outer, split, more, outside⟩ := flagged
      refine Or.inr (Or.inr ⟨by rw [other here]; exact status, by rw [other here]; exact protect,
        token, ?_, inside, outer, split, more, fun later among => ?_⟩)
      · exact doomed_stays inv found (fun q apart => Function.update_of_ne apart _ _) rfl
          (finish _) sheltered
      · have apart : later ≠ context.inner := fun same =>
          inner_not_outer sound.nodup split (same ▸ among)
        rw [other apart]
        exact outside later among

theorem step_unready (inv : Invariant s ((k, mode) :: rest)) (found : s.contexts k = some context)
    (enters : context.point = .enter) :
    Invariant ((s.setStatus context.inner .childUnready).moveTo k context .returning)
      ((k, mode) :: rest) := by
  have placed := placed_of inv found
  simp only [Placed, enters] at placed
  obtain ⟨awake, calm⟩ := calm_of inv found (Or.inl placed.1)
  refine inv_moves inv found ?_ (statuses_unready inv found enters) (Or.inl placed.1)
  refine moves_write inv found (quiet_self awake) (fun t armed => ⟨armed, fun same => ?_⟩)
    (fun _ => ⟨rfl, rfl, rfl, rfl, rfl⟩) (Or.inr (Or.inr ⟨rfl, enters⟩)) (by simp)
    (by simp [enters, opened])
  rw [← same, calm] at armed
  cases armed

theorem step_adopts_unready (inv : Invariant s ((k, mode) :: rest))
    (found : s.contexts k = some context) (enters : context.point = .enter) {taken : List Nat}
    (ready : ∀ t ∈ taken, (s.tasks t).status = .ready)
    (unclaimed : ∀ t ∈ taken, Unclaimed s t) :
    Invariant (((adopts s uid taken).setStatus context.inner .childUnready).moveTo k context
      .returning) ((k, mode) :: rest) :=
  step_unready (inv_adopts inv found enters ready unclaimed) found enters

end Adoption

end Cocoflow.SchedulerObjects
