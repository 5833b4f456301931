import Mathlib.Logic.Function.Basic
import Mathlib.Data.List.Basic
import Cocoflow.PointUpdates
import Cocoflow.SchedulerCalls
import Cocoflow.SchedulerObjects
import Cocoflow.SchedulerCancel

/-!
The switches of `swap_running` outside the cancel loop. A start puts a coroutine on the
stack; a yield or the end of a task takes the running one off and gives control to the one
below it, or to the event loop at the bottom. A task that ends at the bottom wakes the
combinator it reports to.
-/

namespace Cocoflow.SchedulerSwitch

open LabelledRuns PointUpdates Scheduler SchedulerNest SchedulerLocal SchedulerSteps
open SchedulerObjects SchedulerCancel

def spawns (s : State) (t j : Nat) : State :=
  { (s.setStatus t .running).setContext j
      { base := t, awaits := [], point := .enter, stamp := s.clock } with
    exec := some j
    current := some t
    clock := s.clock + 1 }

section Spawn

variable {s : State} {nest : Nest} {t j : Nat} {token : Option Nat}

theorem swapRunning_spawns {source : Option Nat} (running : source = s.exec)
    (free : s.contexts j = none) (managed : s.manager j = some t) (live : s.live t = true) :
    swapRunning s source (some j) = some (spawns s t j) := by
  simp [swapRunning, running, free, managed, live, spawns]

theorem spawns_here : (spawns s t j).contexts j =
    some { base := t, awaits := [], point := .enter, stamp := s.clock } :=
  Function.update_self ..

theorem spawns_kept {l : Nat} {other : Context} (free : s.contexts j = none)
    (there : s.contexts l = some other) :
    l ≠ j ∧ (spawns s t j).contexts l = s.contexts l := by
  have apart : l ≠ j := by
    rintro rfl
    rw [free] at there
    cases there
  exact ⟨apart, Function.update_of_ne apart _ _⟩

theorem spawns_restates (s : State) (t j : Nat) (other : Nat) :
    ((spawns s t j).tasks other).kind = (s.tasks other).kind ∧
      ((spawns s t j).tasks other).uid = (s.tasks other).uid ∧
      ((spawns s t j).tasks other).reuse = (s.tasks other).reuse ∧
      ((spawns s t j).tasks other).blockTo = (s.tasks other).blockTo ∧
      ((spawns s t j).tasks other).finishTo = (s.tasks other).finishTo ∧
      ((spawns s t j).tasks other).completedId = (s.tasks other).completedId ∧
      ((spawns s t j).tasks other).uninterruptable = (s.tasks other).uninterruptable := by
  have restates : Restates s (s.setStatus t .running) t := restates_setStatus .running
  exact restates.fields other

theorem spawns_sound (inv : Invariant s nest) (live : s.live t = true)
    (ready : (s.tasks t).status = .ready) (uid : (s.tasks t).uid = some j)
    (managed : s.manager j = some t) (free : s.contexts j = none)
    (block : (s.tasks t).blockTo = token)
    (adopted : ∀ q, (s.tasks t).finishTo = some q →
      Adopted s q { base := t, awaits := [], point := .enter, stamp := s.clock })
    (reports : (s.tasks t).finishTo ≠ none → token ≠ none) :
    Sound (spawns s t j) j { base := t, awaits := [], point := .enter, stamp := s.clock }
      (.live token) := by
  obtain ⟨kind, own, reuse, blocks, finish, chosen, -⟩ := spawns_restates s t j t
  obtain ⟨unreused, unchosen⟩ := inv.unused t live (Or.inl ready)
  have running : ((spawns s t j).tasks t).status = .running := by
    change ((s.setStatus t .running).tasks t).status = .running
    rw [State.setStatus, setTask_self]
  refine { owned := ?owned, nodup := by simp [Context.chain], manager := managed,
           stamp := Nat.lt_succ_self _, mirrors := ?mirrors, parents := rfl,
           outer := by simp [Context.chain], awaited := by simp, token := blocks.trans block,
           spent := by simp, adopted := ?adopted, statuses := ?statuses,
           placed := ⟨⟨token, rfl⟩, chosen.trans unchosen, ?placed⟩ }
  case owned =>
      intro other member
      cases List.mem_singleton.mp member
      exact ⟨live, own.trans uid⟩
  case mirrors =>
      exact ⟨reuse.trans unreused, trivial⟩
  case adopted =>
      intro q back
      rw [finish] at back
      obtain ⟨parent, which, children, there, group, open_, earlier, member⟩ := adopted q back
      exact ⟨parent, which, children, (spawns_kept free there).2.trans there,
        (spawns_restates s t j _).1.trans group, open_, earlier, member⟩
  case statuses =>
      unfold Statuses
      rw [if_neg (by simp)]
      intro other member
      cases List.mem_singleton.mp member
      exact Or.inl running
  case placed =>
      intro _ back same
      rw [finish] at back
      exact reports back (by injection same)

-- The rule for switches to a coroutine that takes up its task.
theorem inv_spawns (inv : Invariant s nest) (awake : s.signal = false)
    (goal : ∀ l other, s.contexts l = some other → other.point ≠ .goal)
    (live : s.live t = true) (ready : (s.tasks t).status = .ready)
    (uid : (s.tasks t).uid = some j) (managed : s.manager j = some t)
    (free : s.contexts j = none) (block : (s.tasks t).blockTo = token)
    (adopted : ∀ q, (s.tasks t).finishTo = some q →
      Adopted s q { base := t, awaits := [], point := .enter, stamp := s.clock })
    (reports : (s.tasks t).finishTo ≠ none → token ≠ none)
    (claim : ∀ l other which children, s.contexts l = some other →
      (s.tasks other.inner).kind = .group which children → opened other.point = true →
        t ∈ children → ∃ i count, other.point = .started i count ∧ children[i]? = some t)
    (link : ∀ k mode below, nest = (k, mode) :: below → Link (spawns s t j) j (.live token) k)
    (bottom : nest = [] → token = none) :
    Invariant (spawns s t j) ((j, .live token) :: nest) := by
  have fields := spawns_restates s t j
  have here := @spawns_here s t j
  have restates : Restates s (s.setStatus t .running) t := restates_setStatus .running
  have same {other : Nat} (apart : other ≠ t) : (spawns s t j).tasks other = s.tasks other :=
    restates.tasks other apart
  have running : ((spawns s t j).tasks t).status = .running := by
    change ((s.setStatus t .running).tasks t).status = .running
    rw [State.setStatus, setTask_self]
  have alone := ready_idle inv ready
  have old {l : Nat} {other : Context} (apart : l ≠ j)
      (there : (spawns s t j).contexts l = some other) : s.contexts l = some other := by
    change Function.update s.contexts j _ l = some other at there
    rwa [Function.update_of_ne apart] at there
  have nested : Nested (spawns s t j) nest := by
    refine nested_congr inv.nested (fun l _ _ _ context found =>
      ⟨context, (spawns_kept free found).2.trans found, rfl, rfl⟩) (fun l member => ?_)
      (fun l other _ => ⟨(fields _).2.2.2.2.1, (fields _).1⟩)
    cases nest with
    | nil => simp at member
    | cons entry below =>
        obtain ⟨k, mode⟩ := entry
        obtain ⟨upper, above⟩ : ∃ upper, s.contexts k = some upper := by
          cases below with
          | nil => exact inv.nested.1
          | cons lower deeper =>
              obtain ⟨upper, -, above, -⟩ := inv.nested.1
              exact ⟨upper, above⟩
        obtain ⟨lower, there, -⟩ := nested_below inv.nested above l member
        exact (spawns_kept free there).2
  refine { nested := ?nested, exec := rfl, sound := ?sound, fresh := ?fresh, unused := ?unused,
           running := ?running, bounded := inv.bounded, done := ?done, past := inv.past,
           armed := ?armed, signal := ?signal, current := ?current }
  case nested =>
      cases nest with
      | nil => exact ⟨⟨_, here⟩, by rw [bottom rfl]⟩
      | cons entry below =>
          obtain ⟨k, mode⟩ := entry
          exact ⟨link k mode below rfl, nested⟩
  case sound =>
      intro l other there
      by_cases new : l = j
      · subst new
        rw [here] at there
        cases there
        rw [modeOf_head]
        exact spawns_sound inv live ready uid managed free block adopted reports
      · rw [modeOf_tail _ _ new]
        have before := old new there
        -- the others see at most that their child has begun to run
        refine sound_frame (inv.sound l other before) (fun member inside => ?_) ?_
          (goal l other before) rfl (Nat.le_succ _) ?_ ?_ (fun _ _ _ _ _ => rfl)
        · exact ⟨same fun here => alone l other before (here ▸ inside), rfl⟩
        · intro which children kind open_ child member
          refine ⟨rfl, (fields child).2.2.2.2.1, ?_⟩
          by_cases target : child = t
          · subst target
            refine Or.inr ⟨claim l other which children before kind open_ member, ?_⟩
            rw [running]
            simp
          · rw [same target]
            exact Or.inl ⟨rfl, fun _ => rfl⟩
        · rintro q - ⟨parent, which, children, found, kind, open_, earlier, member⟩
          exact ⟨parent, which, children, (spawns_kept free found).2.trans found,
            (fields _).1.trans kind, open_, earlier, member⟩
        · rintro ⟨q, parent, finish, found, inside⟩
          exact ⟨q, parent, (fields _).2.2.2.2.1.trans finish,
            (spawns_kept free found).2.trans found, inside⟩
  case fresh =>
      intro other alive unstarted
      have apart : other ≠ t := by
        rintro rfl
        rw [running] at unstarted
        cases unstarted
      rw [same apart] at unstarted ⊢
      obtain ⟨id, own, manages, vacant⟩ := inv.fresh other alive unstarted
      refine ⟨id, own, manages, ?_⟩
      -- the manager shows another task for the id of the new coroutine
      have different : id ≠ j := by
        rintro rfl
        rw [managed] at manages
        exact apart (Option.some.inj manages).symm
      exact (Function.update_of_ne different _ _).trans vacant
  case unused =>
      intro other alive unstarted
      have apart : other ≠ t := by
        rintro rfl
        simp [running] at unstarted
      rw [same apart] at unstarted ⊢
      exact inv.unused other alive unstarted
  case running =>
      intro other alive runs
      by_cases target : other = t
      · subst target
        exact ⟨j, _, here, base_mem _⟩
      · rw [same target] at runs
        obtain ⟨l, context, found, member⟩ := inv.running other alive runs
        exact ⟨l, context, (spawns_kept free found).2.trans found, member⟩
  case done =>
      intro other
      change other ∈ s.done ↔ _
      rw [inv.done other]
      by_cases target : other = t
      · subst target
        rw [running, ready]
        simp
      · rw [same target]
  case armed =>
      intro other armed
      obtain ⟨event, l, context, found, inner, point, unlive⟩ := inv.armed other armed
      obtain ⟨apart, kept⟩ := spawns_kept (t := t) free found
      refine ⟨(fields other).1.trans event, l, context, kept.trans found, inner, point, ?_⟩
      rw [modeOf_tail _ _ apart]
      exact unlive
  case signal =>
      constructor
      · intro raised
        change s.signal = true at raised
        rw [awake] at raised
        cases raised
      · rintro ⟨l, context, below, at_, top, -⟩
        cases top
  case current =>
      intro l context runs there
      cases runs
      rw [here] at there
      cases there
      exact ⟨t, base_mem _, rfl⟩

end Spawn

section Starts

variable {s : State} {k target : Nat} {mode : Mode} {rest : Nest} {context : Context}

theorem no_goal (inv : Invariant s ((k, mode) :: rest)) (found : s.contexts k = some context)
    (elsewhere : context.point ≠ .goal) :
    ∀ l other, s.contexts l = some other → other.point ≠ .goal := by
  intro l other there
  by_cases same : l = k
  · subst same
    rw [found] at there
    cases there
    exact elsewhere
  · exact other_not_goal inv found same there

theorem spawns_link {t j : Nat} {point : Point} (sound : Sound s k context mode)
    (apart : k ≠ j)
    (waits : match point with
      | .inStart target => t = target ∧ (s.tasks target).finishTo = none
      | .started i _ => (s.tasks t).finishTo = some k ∧ ∃ which children,
          (s.tasks context.inner).kind = .group which children ∧ children[i]? = some t
      | _ => False) :
    Link (spawns (s.moveTo k context point) t j) j (.live (some k)) k := by
  have fields := spawns_restates (s.moveTo k context point) t j
  refine ⟨_, { context with point := point }, Function.update_self ..,
    (Function.update_of_ne apart _ _).trans (Function.update_self ..), sound.stamp, ?_⟩
  cases point with
  | inStart target =>
      obtain ⟨rfl, free⟩ := waits
      exact ⟨rfl, rfl, (fields t).2.2.2.2.1.trans free⟩
  | started i count =>
      obtain ⟨finish, which, children, kind, here⟩ := waits
      exact ⟨rfl, (fields t).2.2.2.2.1.trans finish, which, children, (fields _).1.trans kind, here⟩
  | _ => exact waits.elim

theorem starts_linked (inv : Invariant s ((k, mode) :: rest)) (found : s.contexts k = some context)
    (user : context.point = .user) {j : Nat} (live : s.live target = true)
    (ready : (s.tasks target).status = .ready) (uid : (s.tasks target).uid = some j)
    (managed : s.manager j = some target) (free : s.contexts j = none)
    (unclaimed : Unclaimed s target) (block : (s.tasks target).blockTo = some k)
    (finish : (s.tasks target).finishTo = none) :
    Invariant (spawns (s.moveTo k context (.inStart target)) target j)
      ((j, .live (some k)) :: (k, mode) :: rest) := by
  have sound := inv.sound k context found
  rw [modeOf_head] at sound
  have placed := sound.placed
  simp only [Placed, user] at placed
  obtain ⟨awake, calm⟩ := calm_of inv found (Or.inl placed.1)
  have moved : Invariant (s.moveTo k context (.inStart target)) ((k, mode) :: rest) :=
    inv_moveTo inv found awake calm (by simp [user]) (by simp) (by simp [user, opened]) placed
  have here : (s.moveTo k context (.inStart target)).contexts k =
      some { context with point := .inStart target } := Function.update_self ..
  have apart : k ≠ j := by
    rintro rfl
    rw [found] at free
    cases free
  refine inv_spawns moved awake (no_goal moved here (by simp)) live ready uid managed
    ((Function.update_of_ne apart.symm _ _).trans free) block ?_ ?_ ?_ ?_ (by simp)
  · intro q reports
    change (s.tasks target).finishTo = some q at reports
    rw [finish] at reports
    cases reports
  · intro reports
    exact absurd finish reports
  · intro l other which children there kind open_ member
    by_cases same : l = k
    · subst same
      rw [here] at there
      cases there
      simp [opened] at open_
    · change Function.update s.contexts k _ l = some other at there
      rw [Function.update_of_ne same] at there
      exact absurd member (unclaimed l other which children there kind open_)
  · intro k' mode' below shape
    cases shape
    exact spawns_link sound apart ⟨rfl, finish⟩

theorem step_starts (inv : Invariant s ((k, mode) :: rest)) (found : s.contexts k = some context)
    (user : context.point = .user) (live : s.live target = true)
    (ready : (s.tasks target).status = .ready) (unclaimed : Unclaimed s target) :
    ∃ j, (s.tasks target).uid = some j ∧ s.manager j = some target ∧ s.contexts j = none ∧
      Invariant (spawns ((s.setTask target fun task =>
        { task with blockTo := some k, finishTo := none }).moveTo k context (.inStart target))
          target j) ((j, .live (some k)) :: (k, mode) :: rest) := by
  obtain ⟨j, uid, managed, free⟩ := inv.fresh target live ready
  refine ⟨j, uid, managed, free, ?_⟩
  have alone := ready_idle inv ready
  have linked : Invariant (s.setTask target fun task =>
      { task with blockTo := some k, finishTo := none }) ((k, mode) :: rest) := by
    refine inv_objects inv ?_ (no_goal inv found (by simp [user]))
    exact objects_write inv alone (fun _ => ⟨rfl, rfl, rfl, rfl⟩) (Or.inl unclaimed) fun _ => rfl
  refine starts_linked linked found user live ?_ ?_ managed free ?_ ?_ ?_
  · rw [setTask_self]
    exact ready
  · rw [setTask_self]
    exact uid
  · intro l other which children there kind
    rw [setTask_other _ _ _ fun same : other.inner = target =>
      alone l other there (same ▸ inner_mem other)] at kind
    exact unclaimed l other which children there kind
  · rw [setTask_self]
  · rw [setTask_self]

theorem step_starts_child (inv : Invariant s ((k, mode) :: rest))
    (found : s.contexts k = some context) {i count child : Nat} {which : Combinator}
    {children : List Nat} (point : context.point = .starting i count)
    (kind : (s.tasks context.inner).kind = .group which children)
    (place : children[i]? = some child) :
    ∃ j, (s.tasks child).uid = some j ∧ s.manager j = some child ∧ s.contexts j = none ∧
      Invariant (spawns (s.moveTo k context (.started i count)) child j)
        ((j, .live (some k)) :: (k, mode) :: rest) := by
  have sound := inv.sound k context found
  rw [modeOf_head] at sound
  have placed := sound.placed
  simp only [Placed, point] at placed
  obtain ⟨live, which', children', kind', family, -, untouched, progress⟩ := placed
  obtain ⟨rfl, rfl⟩ := same_group kind kind'
  obtain ⟨inside, rfl⟩ := List.getElem?_eq_some_iff.mp place
  have member : children'[i] ∈ children' := List.getElem_mem inside
  have split : children'.drop i = children'[i] :: children'.drop (i + 1) :=
    List.drop_eq_getElem_cons inside
  have finish := family.finish _ member
  obtain ⟨ready, block⟩ := untouched children'[i] (split ▸ List.mem_cons_self)
  obtain ⟨j, uid, managed, free⟩ := inv.fresh _ (family.live _ member) ready
  refine ⟨j, uid, managed, free, ?_⟩
  obtain ⟨awake, calm⟩ := calm_of inv found (Or.inl live)
  have moved : Invariant (s.moveTo k context (.started i count)) ((k, mode) :: rest) := by
    refine inv_moveTo inv found awake calm (by simp [point]) (by simp)
      (fun _ => Or.inl ⟨rfl, by simp [point, cancels]⟩) ?_
    refine ⟨live, which', children', kind, { family with }, inside, fun t later => ?_,
      fun t here => ?_, progress⟩
    · exact untouched t (split ▸ List.mem_cons_of_mem _ later)
    · cases place.symm.trans here
      change (s.tasks children'[i]).status ≠ .canceled
      rw [ready]
      simp
  have here : (s.moveTo k context (.started i count)).contexts k =
      some { context with point := .started i count } := Function.update_self ..
  have apart : k ≠ j := by
    rintro rfl
    rw [found] at free
    cases free
  refine inv_spawns moved awake (no_goal moved here (by simp)) (family.live _ member) ready uid
    managed ((Function.update_of_ne apart.symm _ _).trans free) block ?_ (by simp) ?_ ?_ (by simp)
  · intro q reports
    have same : q = k := Option.some.inj (reports.symm.trans finish)
    subst same
    exact ⟨_, which', children', here, kind, rfl, sound.stamp, member⟩
  · intro l other which children there group open_ among
    have same : l = k := base_claimed moved there group open_ among finish
    subst same
    rw [here] at there
    cases there
    obtain ⟨rfl, rfl⟩ := same_group (s := s) kind group
    exact ⟨i, count, rfl, place⟩
  · intro k' mode' below shape
    cases shape
    exact spawns_link sound apart ⟨finish, which', children', kind, place⟩

theorem step_cocoflow (inv : Invariant s []) (live : s.live target = true)
    (ready : (s.tasks target).status = .ready) (unclaimed : Unclaimed s target)
    (goal : ∀ l other, s.contexts l = some other → other.point ≠ .goal) :
    ∃ j, (s.tasks target).uid = some j ∧ s.manager j = some target ∧ s.contexts j = none ∧
      Invariant (spawns { s.setTask target fun task =>
        { task with blockTo := none, finishTo := none } with top := some target } target j)
          [(j, .live none)] := by
  obtain ⟨j, uid, managed, free⟩ := inv.fresh target live ready
  refine ⟨j, uid, managed, free, ?_⟩
  have alone := ready_idle inv ready
  have objects : Objects s (s.setTask target fun task =>
      { task with blockTo := none, finishTo := none }) :=
    objects_write inv alone (fun _ => ⟨rfl, rfl, rfl, rfl⟩) (Or.inl unclaimed) fun _ => rfl
  have linked : Invariant { s.setTask target fun task =>
      { task with blockTo := none, finishTo := none } with top := some target } [] :=
    inv_objects inv { objects with } goal
  have awake : s.signal = false := by
    cases raised : s.signal with
    | false => rfl
    | true =>
        obtain ⟨l, context, below, at_, top, -⟩ := inv.signal.mp raised
        cases top
  have written : ({ s.setTask target fun task =>
      { task with blockTo := none, finishTo := none } with top := some target } : State).tasks
        target = { s.tasks target with blockTo := none, finishTo := none } := by
    simp [State.setTask]
  refine inv_spawns linked awake goal live ?_ ?_ managed free ?_ ?_ ?_ ?_ (by simp) (by simp)
  · rw [written]
    exact ready
  · rw [written]
    exact uid
  · rw [written]
  · intro q reports
    rw [written] at reports
    cases reports
  · intro reports
    rw [written] at reports
    exact absurd rfl reports
  · intro l other which children there kind open_ member
    have alive := ((inv.sound l other there).owned _ (inner_mem other)).1
    exact absurd member (unclaimed l other which children there
      ((objects.kind _ alive).symm.trans kind) open_)

end Starts

def yields (s : State) (k : Nat) (context : Context) (at_ : YieldAt) (token : Option Nat)
    (armed : Nat → Bool) : State :=
  { (s.setTask context.inner fun task => { task with blockTo := none }).moveTo k context
      (.yielded at_) with
    exec := token
    current := token.bind s.manager
    armed := armed }

section Yield

variable {s : State} {k : Nat} {mode : Mode} {token : Option Nat} {rest : Nest}
variable {context : Context} {at_ : YieldAt} {armed : Nat → Bool}

theorem nested_tail (inv : Invariant s ((k, mode) :: rest)) : Nested s rest := by
  cases rest with
  | nil => trivial
  | cons entry below => exact inv.nested.2

theorem token_below (inv : Invariant s ((k, .live token) :: rest)) :
    token = rest.head?.map Prod.fst := by
  cases rest with
  | nil =>
      have bottom := inv.nested.2
      injection bottom
  | cons entry below =>
      obtain ⟨q, mode⟩ := entry
      obtain ⟨upper, lower, -, -, -, waits⟩ := inv.nested.1
      cases point : lower.point with
      | inStart target =>
          simp only [point] at waits
          injection waits.2.1
      | started i count =>
          simp only [point] at waits
          injection waits.1
      | canceling i unsupport caller =>
          simp only [point] at waits
          cases waits.1
      | _ => simp [point] at waits

theorem below_found (inv : Invariant s ((k, mode) :: rest)) (found : s.contexts k = some context)
    {q : Nat} (next : rest.head?.map Prod.fst = some q) :
    q ≠ k ∧ ∃ lower, s.contexts q = some lower ∧ switched lower.point := by
  cases rest with
  | nil => cases next
  | cons entry below =>
      obtain ⟨q', mode'⟩ := entry
      cases next
      obtain ⟨lower, there, earlier, waits⟩ := nested_below inv.nested found q' (by simp)
      refine ⟨?_, lower, there, waits⟩
      rintro rfl
      exact head_not_below inv found (by simp)

theorem swapRunning_back {source next : Option Nat} (running : source = s.exec)
    (used : ∀ q, next = some q → ∃ lower, s.contexts q = some lower) :
    swapRunning s source next = some { s with exec := next, current := next.bind s.manager } := by
  cases next with
  | none => simp [swapRunning, running]
  | some q =>
      obtain ⟨lower, there⟩ := used q rfl
      simp [swapRunning, running, there]

theorem below_unsignalled (inv : Invariant s ((k, mode) :: rest))
    (found : s.contexts k = some context) {contexts : Nat → Option Context}
    (kept : ∀ q, q ≠ k → contexts q = s.contexts q) :
    ¬∃ l other below at_, rest = (l, .cancelling) :: below ∧ contexts l = some other ∧
      other.point = .yielded at_ := by
  rintro ⟨l, other, below, at_, rfl, there, point⟩
  obtain ⟨apart, lower, place, waits⟩ := below_found inv found rfl
  rw [kept l apart, place] at there
  cases there
  rw [point] at waits
  exact waits

theorem yields_inner : (yields s k context at_ token armed).tasks context.inner =
    { s.tasks context.inner with blockTo := none } := Function.update_self ..

theorem yields_other {t : Nat} (apart : t ≠ context.inner) :
    (yields s k context at_ token armed).tasks t = s.tasks t := Function.update_of_ne apart ..

theorem yields_fields (t : Nat) :
    ((yields s k context at_ token armed).tasks t).kind = (s.tasks t).kind ∧
      ((yields s k context at_ token armed).tasks t).uid = (s.tasks t).uid ∧
      ((yields s k context at_ token armed).tasks t).reuse = (s.tasks t).reuse ∧
      ((yields s k context at_ token armed).tasks t).finishTo = (s.tasks t).finishTo ∧
      ((yields s k context at_ token armed).tasks t).status = (s.tasks t).status ∧
      ((yields s k context at_ token armed).tasks t).completedId = (s.tasks t).completedId ∧
      ((yields s k context at_ token armed).tasks t).uninterruptable =
        (s.tasks t).uninterruptable := by
  by_cases here : t = context.inner
  · rw [here, yields_inner]
    exact ⟨rfl, rfl, rfl, rfl, rfl, rfl, rfl⟩
  · rw [yields_other here]
    exact ⟨rfl, rfl, rfl, rfl, rfl, rfl, rfl⟩

theorem yields_stays (inv : Invariant s ((k, mode) :: rest)) (found : s.contexts k = some context)
    (shelter : opened context.point = true → opened (.yielded at_) = true ∧
      (cancels context.point = true → cancels (.yielded at_) = true)) :
    Stays s (yields s k context at_ token armed) k context
      { context with point := .yielded at_ } := by
  refine { contexts := rfl, base := rfl, stamp := rfl, clock := rfl, change := ?change,
           kind := ?kind, manager := fun _ _ _ => rfl,
           shelter := fun open_ => Or.inl ⟨(shelter open_).1, rfl, (shelter open_).2⟩,
           done := ⟨[], by simp [yields, State.moveTo, State.setContext, State.setTask], by simp⟩ }
  case change =>
      intro t
      by_cases here : t = context.inner
      · subst here
        rcases inner_base_or_target context with ⟨-, base⟩ | target
        · refine .base base ⟨by rw [yields_inner], fun ready => ?_⟩ (by rw [yields_inner]) rfl
          exact absurd ready (engaged_status inv found (inner_mem context)).1
        · exact .target target
      · exact .same (yields_other here) rfl
  case kind =>
      intro t _
      exact (yields_fields t).1

theorem yields_sound (inv : Invariant s ((k, .live token) :: rest))
    (found : s.contexts k = some context) (ready : context.point ≠ .returning)
    (placed : Placed (yields s k context at_ token armed) k { context with point := .yielded at_ }
      .parked) :
    Sound (yields s k context at_ token armed) k { context with point := .yielded at_ } .parked := by
  have sound := inv.sound k context found
  rw [modeOf_head] at sound
  have fields := @yields_fields s k token context at_ armed
  have nodup := sound.nodup
  rw [chain_cons] at nodup
  have kept (q : Nat) (apart : q ≠ k) :
      (yields s k context at_ token armed).contexts q = s.contexts q :=
    Function.update_of_ne apart _ _
  refine { owned := ?owned, nodup := sound.nodup, manager := sound.manager, stamp := sound.stamp,
           mirrors := mirrors_congr (fun t _ => (fields t).2.2.1) sound.mirrors,
           parents := sound.parents, outer := ?outer, awaited := ?awaited, token := ?token,
           spent := fun _ _ => rfl, adopted := ?adopted, statuses := ?statuses, placed := placed }
  case owned =>
      intro t member
      rw [(fields t).2.1]
      exact sound.owned t member
  case outer =>
      intro t member
      have apart : t ≠ context.inner := fun same => (List.nodup_cons.mp nodup).1 (same ▸ member)
      rw [yields_other apart]
      exact sound.outer t member
  case awaited =>
      intro t member
      rw [(fields t).2.2.2.1]
      exact sound.awaited t member
  case token =>
      exact congrArg Task.blockTo yields_inner
  case adopted =>
      intro q finish
      rw [(fields _).2.2.2.1] at finish
      obtain ⟨parent, which, children, there, kind, open_, earlier, member⟩ :=
        sound.adopted q finish
      exact ⟨parent, which, children, (kept q (parent_apart inv found finish)).trans there,
        (fields _).1.trans kind, open_, earlier, member⟩
  case statuses =>
      have statuses := sound.statuses
      unfold Statuses at statuses ⊢
      rw [if_neg (by simp)] at statuses ⊢
      intro t member
      rcases statuses t member with running | unready | flagged
      · exact Or.inl ((fields t).2.2.2.2.1.trans running)
      · exact absurd unready.2.2.1 ready
      · obtain ⟨status, protect, -, sheltered, inside, outer, split, more, outside⟩ := flagged
        refine Or.inr (Or.inr ⟨(fields t).2.2.2.2.1.trans status,
          (fields t).2.2.2.2.2.2.trans protect, rfl, ?_, inside, outer, split, more,
          fun later among => (fields later).2.2.2.2.2.2.trans (outside later among)⟩)
        exact doomed_stays inv found kept rfl (fields _).2.2.2.1 sheltered

-- The rule for yields: the running coroutine is parked and the one below it goes on.
theorem inv_yields (inv : Invariant s ((k, .live token) :: rest))
    (found : s.contexts k = some context) (ready : context.point ≠ .returning)
    (shelter : opened context.point = true → opened (.yielded at_) = true ∧
      (cancels context.point = true → cancels (.yielded at_) = true))
    (arms : ∀ t, armed t = true → s.armed t = true ∨
      t = context.inner ∧ at_ = .event ∧ (s.tasks t).kind = .event)
    (placed : Placed (yields s k context at_ token armed) k { context with point := .yielded at_ }
      .parked) :
    Invariant (yields s k context at_ token armed) rest := by
  have fields := @yields_fields s k token context at_ armed
  have stays := @yields_stays s k _ token rest context at_ armed inv found shelter
  obtain ⟨awake, calm⟩ := calm_of inv found (Or.inl ⟨token, rfl⟩)
  have here : (yields s k context at_ token armed).contexts k =
      some { context with point := .yielded at_ } := Function.update_self ..
  have kept (q : Nat) (apart : q ≠ k) :
      (yields s k context at_ token armed).contexts q = s.contexts q :=
    Function.update_of_ne apart _ _
  have parked : modeOf rest k = .parked := modeOf_absent (head_not_below inv found)
  refine { nested := ?nested, exec := token_below inv, sound := ?sound, fresh := ?fresh,
           unused := ?unused, running := ?running, bounded := inv.bounded, done := ?done,
           past := inv.past, armed := ?armed, signal := ?signal, current := ?current }
  case nested =>
      refine nested_congr (nested_tail inv) ?_ ?_ fun l other _ =>
        ⟨(fields _).2.2.2.1, (fields _).1⟩
      · rintro l mode below rfl other there
        exact ⟨other, (kept l (below_found inv found rfl).1).trans there, rfl, rfl⟩
      · intro l member
        refine kept l ?_
        rintro rfl
        refine head_not_below inv found ?_
        rw [List.map_tail] at member
        exact List.mem_of_mem_tail member
  case sound =>
      intro l other there
      by_cases same : l = k
      · subst same
        rw [here] at there
        cases there
        rw [parked]
        exact yields_sound inv found ready placed
      · rw [kept l same] at there
        rw [← modeOf_tail (.live token) rest same]
        exact others_stay inv found stays same there
  case fresh =>
      intro t live unstarted
      rw [(fields t).2.2.2.2.1] at unstarted
      obtain ⟨j, own, managed, free⟩ := inv.fresh t live unstarted
      refine ⟨j, (fields t).2.1.trans own, managed, ?_⟩
      rw [kept j]
      · exact free
      · rintro rfl
        rw [found] at free
        cases free
  case unused =>
      intro t live unstarted
      rw [(fields t).2.2.2.2.1] at unstarted
      rw [(fields t).2.2.1, (fields t).2.2.2.2.2.1]
      exact inv.unused t live unstarted
  case running =>
      intro t live running
      rw [(fields t).2.2.2.2.1] at running
      obtain ⟨l, other, there, member⟩ := inv.running t live running
      by_cases same : l = k
      · subst same
        rw [found] at there
        cases there
        exact ⟨l, _, here, member⟩
      · exact ⟨l, other, (kept l same).trans there, member⟩
  case done =>
      intro t
      rw [(fields t).2.2.2.2.1]
      exact inv.done t
  case armed =>
      intro t pending
      rw [(fields t).1]
      rcases arms t pending with before | ⟨rfl, rfl, event⟩
      · obtain ⟨event, l, other, there, inner, point, unlive⟩ := inv.armed t before
        have apart : l ≠ k := by
          rintro rfl
          rw [modeOf_head] at unlive
          exact unlive ⟨token, rfl⟩
        rw [modeOf_tail _ _ apart] at unlive
        exact ⟨event, l, other, (kept l apart).trans there, inner, point, unlive⟩
      · refine ⟨event, k, _, here, rfl, Or.inl rfl, ?_⟩
        rw [parked]
        rintro ⟨token, bad⟩
        cases bad
  case signal =>
      refine iff_of_false ?_ (below_unsignalled inv found kept)
      change ¬s.signal = true
      simp [awake]
  case current =>
      intro q other runs there
      change token = some q at runs
      rw [token_below inv] at runs
      obtain ⟨apart, lower, place, -⟩ := below_found inv found runs
      rw [kept q apart, place] at there
      cases there
      refine ⟨other.base, base_mem other, ?_⟩
      change token.bind s.manager = some other.base
      rw [token_below inv, runs]
      exact (inv.sound q other place).manager

theorem taskYield_yields (inv : Invariant s ((k, .live token) :: rest))
    (found : s.contexts k = some context) :
    taskYield { s with armed := armed } k context at_ =
      some (yields s k context at_ token armed) := by
  have sound := inv.sound k context found
  rw [modeOf_head] at sound
  have owner : (s.tasks context.inner).uid = some k := (sound.owned _ (inner_mem context)).2
  have back : (s.tasks context.inner).blockTo = token := sound.token
  unfold taskYield
  dsimp only
  rw [owner, back, swapRunning_back]
  · rfl
  · exact inv.exec.symm
  · intro q next
    rw [token_below inv] at next
    obtain ⟨apart, lower, there, -⟩ := below_found inv found next
    exact ⟨lower, (Function.update_of_ne apart _ _).trans there⟩

theorem yields_children {children : List Nat} (family : Family s k context children) :
    Family (yields s k context at_ token armed) k { context with point := .yielded at_ }
      children where
  nodup := family.nodup
  live := family.live
  finish := fun t child => (yields_fields t).2.2.2.1.trans (family.finish t child)
  apart := family.apart

theorem step_blocks (inv : Invariant s ((k, .live token) :: rest))
    (found : s.contexts k = some context) (enters : context.point = .enter)
    (kind : (s.tasks context.inner).kind = .event) :
    Invariant (yields s k context .event token (Function.update s.armed context.inner true))
      rest := by
  refine inv_yields inv found (by simp [enters]) (by simp [enters, opened]) (fun t armed => ?_)
    ((yields_fields _).1.trans kind)
  by_cases here : t = context.inner
  · subst here
    exact Or.inr ⟨rfl, rfl, kind⟩
  · rw [Function.update_of_ne here] at armed
    exact Or.inl armed

theorem step_waits (inv : Invariant s ((k, .live token) :: rest))
    (found : s.contexts k = some context) {count : Nat} {which : Combinator}
    {children : List Nat} (point : context.point = .waiting count)
    (kind : (s.tasks context.inner).kind = .group which children)
    (open_ : match which with
      | .allOf => count ≠ 0
      | .anyOf => (s.tasks context.inner).completedId = none) :
    Invariant (yields s k context (.wait count) token s.armed) rest := by
  have placed := placed_of inv found
  simp only [Placed, point] at placed
  obtain ⟨-, which', children', kind', family, books⟩ := placed
  obtain ⟨rfl, rfl⟩ := same_group kind kind'
  have waits : Waits s which' context.inner children' count ∧ (which' = .allOf → count ≠ 0) := by
    rcases books with waits | ⟨rfl, i, t, chosen, -⟩
    · refine ⟨waits, ?_⟩
      rintro rfl
      exact open_
    · rw [open_] at chosen
      cases chosen
  refine inv_yields inv found (by simp [point]) (by simp [point, opened, cancels])
    (fun t armed => Or.inl armed) ?_
  refine ⟨which', children', (yields_fields _).1.trans kind, yields_children family, ?_, waits.2⟩
  exact waits_congr (yields_fields _).2.2.2.2.2.1 (fun t _ => (yields_fields t).2.2.2.2.1) waits.1

theorem step_cancel_waits (inv : Invariant s ((k, .live token) :: rest))
    (found : s.contexts k = some context) {unsupport : Nat} {caller : CancelCaller}
    (point : context.point = .cancelWait unsupport caller) :
    Invariant (yields s k context (.cancelWait unsupport caller) token s.armed) rest := by
  have placed := placed_of inv found
  simp only [Placed, point] at placed
  obtain ⟨any, -, protect, children, kind, family, picked, count⟩ := placed
  refine inv_yields inv found (by simp [point]) (by simp [point, opened, cancels])
    (fun t armed => Or.inl armed) ?_
  refine ⟨any, by simp, (yields_fields _).2.2.2.2.2.2.trans protect, children,
    (yields_fields _).1.trans kind, yields_children family, ?_, ?_⟩
  · obtain ⟨i, t, chosen, place, first⟩ := picked
    exact ⟨i, t, (yields_fields _).2.2.2.2.2.1.trans chosen, place, first⟩
  · rw [active_congr (s := s) fun t _ => (yields_fields t).2.2.2.2.1]
    exact count

end Yield

end Cocoflow.SchedulerSwitch
