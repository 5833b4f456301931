import Mathlib.Logic.Function.Basic
import Mathlib.Data.List.Basic
import Mathlib.Data.List.Perm.Subperm
import Cocoflow.SchedulerSteps

/-!
The cancel loop of `__task_cancel_children`. Its walk along `reuse` sees the tasks on the
stack of the child's coroutine from the outside in. A child with an uninterruptable task on
its stack is counted, and that task is told to throw when it ends; any other child is
switched to with the signal raised.
-/

namespace Cocoflow.SchedulerCancel

open LabelledRuns Scheduler SchedulerNest SchedulerLocal SchedulerSteps

section Walk

variable {s : State}

theorem mirrors_inside {before outer : List Nat} {start : Option Nat} {inner t : Nat}
    (mirrors : Mirrors s start (before ++ inner :: t :: outer)) :
    (s.tasks t).reuse = some inner := by
  induction before generalizing start with
  | nil => exact mirrors.2.1
  | cons first others ih => exact ih mirrors.2

/-- The walk finds the outermost uninterruptable task, or that there is none. -/
theorem protector_spec {fuel : Nat} {inside outer : List Nat} {t : Nat}
    (mirrors : Mirrors s none (inside ++ t :: outer)) (enough : inside.length < fuel) :
    (∃ final before after, protector s fuel t = some (some final) ∧
      (s.tasks final).uninterruptable = true ∧ inside ++ [t] = before ++ final :: after ∧
      ∀ other ∈ after, (s.tasks other).uninterruptable = false) ∨
    protector s fuel t = some none ∧
      ∀ other ∈ inside ++ [t], (s.tasks other).uninterruptable = false := by
  induction fuel generalizing inside t outer with
  | zero => omega
  | succ fuel ih =>
      cases protect : (s.tasks t).uninterruptable with
      | true =>
          refine Or.inl ⟨t, inside, [], ?_, protect, rfl, by simp⟩
          simp [protector, protect]
      | false =>
          rcases List.eq_nil_or_concat inside with rfl | ⟨before, inner, rfl⟩
          · have last : (s.tasks t).reuse = none := mirrors.1
            refine Or.inr ⟨?_, by simpa using protect⟩
            simp [protector, protect, last]
          · simp only [List.append_assoc, List.cons_append, List.nil_append, List.concat_eq_append]
              at mirrors enough ⊢
            have next : protector s (fuel + 1) t = protector s fuel inner := by
              simp [protector, protect, mirrors_inside mirrors]
            have shorter : before.length < fuel := by
              simp at enough
              omega
            rw [next]
            rcases ih mirrors shorter with ⟨final, first, after, walk, marked, split, open_⟩ |
              ⟨walk, open_⟩
            · refine Or.inl ⟨final, first, after ++ [t], walk, marked, ?_, fun other member => ?_⟩
              · have whole := congrArg (· ++ [t]) split
                simpa using whole
              · rcases List.mem_append.mp member with inner | last
                · exact open_ other inner
                · cases List.mem_singleton.mp last
                  exact protect
            · refine Or.inr ⟨walk, fun other member => ?_⟩
              have among : other ∈ (before ++ [inner]) ++ [t] := by simpa using member
              rcases List.mem_append.mp among with inner | last
              · exact open_ other inner
              · cases List.mem_singleton.mp last
                exact protect

theorem chain_length {nest : Nest} (inv : Invariant s nest) {l : Nat} {other : Context}
    (there : s.contexts l = some other) : other.chain.length ≤ s.next := by
  have sound := inv.sound l other there
  have inside : other.chain ⊆ List.range s.next := by
    intro t member
    exact List.mem_range.mpr (inv.bounded t (sound.owned t member).1)
  have short := (List.subperm_of_subset sound.nodup inside).length_le
  rwa [List.length_range] at short

theorem protector_chain {nest : Nest} (inv : Invariant s nest) {l : Nat} {other : Context}
    (there : s.contexts l = some other) :
    (∃ final before after, protector s s.next other.base = some (some final) ∧
      (s.tasks final).uninterruptable = true ∧ other.chain = before ++ final :: after ∧
      ∀ t ∈ after, (s.tasks t).uninterruptable = false) ∨
    protector s s.next other.base = some none ∧
      ∀ t ∈ other.chain, (s.tasks t).uninterruptable = false := by
  have mirrors := (inv.sound l other there).mirrors
  have short := chain_length inv there
  unfold Context.chain at mirrors short ⊢
  refine protector_spec mirrors ?_
  simp at short ⊢
  omega

end Walk

/-- Two states that differ at most in the status of one task. -/
structure Restates (s s' : State) (final : Nat) : Prop where
  contexts : s'.contexts = s.contexts
  live : s'.live = s.live
  manager : s'.manager = s.manager
  clock : s'.clock = s.clock
  done : s'.done = s.done
  tasks : ∀ t, t ≠ final → s'.tasks t = s.tasks t
  final : s'.tasks final = { s.tasks final with status := (s'.tasks final).status }

section Restate

variable {s s' : State} {final : Nat}

theorem restates_setStatus (status : Status) : Restates s (s.setStatus final status) final := by
  refine ⟨rfl, rfl, rfl, rfl, rfl, fun t apart => setTask_other s final _ apart, ?_⟩
  simp only [State.setStatus, setTask_self]

theorem Restates.fields (restates : Restates s s' final) (t : Nat) :
    (s'.tasks t).kind = (s.tasks t).kind ∧ (s'.tasks t).uid = (s.tasks t).uid ∧
      (s'.tasks t).reuse = (s.tasks t).reuse ∧ (s'.tasks t).blockTo = (s.tasks t).blockTo ∧
      (s'.tasks t).finishTo = (s.tasks t).finishTo ∧
      (s'.tasks t).completedId = (s.tasks t).completedId ∧
      (s'.tasks t).uninterruptable = (s.tasks t).uninterruptable := by
  by_cases here : t = final
  · subst here
    rw [restates.final]
    exact ⟨rfl, rfl, rfl, rfl, rfl, rfl, rfl⟩
  · rw [restates.tasks t here]
    exact ⟨rfl, rfl, rfl, rfl, rfl, rfl, rfl⟩

theorem Restates.doomed (restates : Restates s s' final) {context : Context}
    (doomed : Doomed s context) : Doomed s' context := by
  obtain ⟨q, parent, finish, there, inside⟩ := doomed
  refine ⟨q, parent, ?_, by rw [restates.contexts]; exact there, inside⟩
  rw [(restates.fields _).2.2.2.2.1]
  exact finish

theorem Restates.adopted (restates : Restates s s' final) {q : Nat} {context : Context}
    (adopted : Adopted s q context) : Adopted s' q context := by
  obtain ⟨parent, which, children, there, kind, open_, earlier, member⟩ := adopted
  exact ⟨parent, which, children, by rw [restates.contexts]; exact there,
    (restates.fields _).1.trans kind, open_, earlier, member⟩

theorem Restates.sound (restates : Restates s s' final) {l : Nat} {context : Context}
    {mode mode' : Mode} (sound : Sound s l context mode) (token : mode'.token = mode.token)
    (statuses : Statuses s' context mode') (placed : Placed s' l context mode') :
    Sound s' l context mode' where
  owned := fun t member => by
    rw [restates.live, (restates.fields t).2.1]
    exact sound.owned t member
  nodup := sound.nodup
  manager := by rw [restates.manager]; exact sound.manager
  stamp := by rw [restates.clock]; exact sound.stamp
  mirrors := mirrors_congr (fun t _ => (restates.fields t).2.2.1) sound.mirrors
  parents := sound.parents
  outer := fun t member => by
    rw [(restates.fields t).1, (restates.fields t).2.2.2.1]
    exact sound.outer t member
  awaited := fun t member => by
    rw [(restates.fields t).2.2.2.2.1]
    exact sound.awaited t member
  token := by
    rw [(restates.fields _).2.2.2.1, token]
    exact sound.token
  spent := fun at_ yields => token.trans (sound.spent at_ yields)
  adopted := fun q finish => by
    rw [(restates.fields _).2.2.2.2.1] at finish
    exact restates.adopted (sound.adopted q finish)
  statuses := statuses
  placed := placed

theorem Restates.elsewhere (restates : Restates s s' final) {l : Nat} {context : Context}
    {mode : Mode} (sound : Sound s l context mode) (away : final ∉ context.chain)
    (goal : context.point ≠ .goal)
    (unclaimed : ∀ which children, (s.tasks context.inner).kind = .group which children →
      opened context.point = true → final ∉ children) : Sound s' l context mode := by
  have same {t : Nat} (member : t ∈ context.chain) : s'.tasks t = s.tasks t :=
    restates.tasks t fun here => away (here ▸ member)
  refine sound_frame sound (fun t member => ⟨same member, by rw [restates.live]⟩) ?_ goal
    (by rw [restates.manager]) (Nat.le_of_eq restates.clock.symm) (fun _ _ => restates.adopted)
    restates.doomed (fun _ _ _ _ _ => by rw [restates.done])
  intro which children kind open_ t child
  have apart : t ≠ final := fun here => unclaimed which children kind open_ (here ▸ child)
  rw [restates.live, restates.tasks t apart]
  exact ⟨rfl, rfl, Or.inl ⟨rfl, fun _ => rfl⟩⟩

theorem Restates.parked (restates : Restates s s' final) {l : Nat} {context : Context}
    {mode : Mode} (yields : ∃ at_, context.point = .yielded at_)
    (placed : Placed s l context mode) (away : ∀ which children,
      (s.tasks context.inner).kind = .group which children → opened context.point = true →
        final ∉ children) : Placed s' l context mode := by
  obtain ⟨at_, point⟩ := yields
  obtain ⟨kind, -, -, -, -, chosen, marked⟩ := restates.fields context.inner
  have kept {which : Combinator} {children : List Nat}
      (group : (s.tasks context.inner).kind = .group which children)
      (open_ : opened context.point = true) :
      (∀ t ∈ children, (s'.tasks t).status = (s.tasks t).status) ∧
        (Family s l context children → Family s' l context children) := by
    refine ⟨fun t child => ?_, fun family => ?_⟩
    · rw [restates.tasks t fun here => away which children group open_ (here ▸ child)]
    · exact family_congr family (fun t _ => by rw [restates.live])
        (fun t _ => (restates.fields t).2.2.2.2.1)
  cases at_ with
  | event =>
      simp only [Placed, point] at placed ⊢
      exact kind.trans placed
  | wait count =>
      simp only [Placed, point] at placed ⊢
      obtain ⟨which, children, group, family, books⟩ := placed
      obtain ⟨statuses, families⟩ := kept group (by simp [point, opened])
      refine ⟨which, children, kind.trans group, families family, ?_⟩
      cases mode with
      | live token => exact woken_congr statuses (by rw [restates.done]) books
      | parked => exact ⟨waits_congr chosen statuses books.1, books.2⟩
      | cancelling => exact ⟨waits_congr chosen statuses books.1, books.2⟩
  | cancelWait unsupport caller =>
      simp only [Placed, point] at placed ⊢
      obtain ⟨any, uncancelled, protect, children, group, family, picked, count⟩ := placed
      obtain ⟨statuses, families⟩ := kept group (by simp [point, opened])
      refine ⟨any, uncancelled, marked.trans protect, children, kind.trans group,
        families family, picked_congr chosen (by rw [restates.done]) picked, ?_⟩
      rw [active_congr statuses]
      exact count

end Restate

section Loop

variable {s : State} {k : Nat} {mode : Mode} {rest : Nest} {context : Context}

theorem awaited_unclaimed {nest : Nest} (inv : Invariant s nest) {l : Nat} {other : Context}
    {t : Nat} (there : s.contexts l = some other) (target : t ∈ other.awaits.map Frame.target) :
    Unclaimed s t := by
  intro l' holder which children found kind open_ child
  have family := placed_family (inv.sound l' holder found).placed kind open_
  have own := (inv.sound l other there).awaited t target
  rw [family.finish t child] at own
  cases own
  rw [found] at there
  cases there
  exact family.apart t child (by simp [Context.chain, target])

theorem base_claimed {nest : Nest} (inv : Invariant s nest) {l q : Nat} {other : Context} {t : Nat}
    {which : Combinator} {children : List Nat} (there : s.contexts l = some other)
    (kind : (s.tasks other.inner).kind = .group which children)
    (open_ : opened other.point = true) (child : t ∈ children)
    (finish : (s.tasks t).finishTo = some q) : l = q := by
  have family := placed_family (inv.sound l other there).placed kind open_
  rw [family.finish t child] at finish
  exact Option.some.inj finish

theorem inv_flags (inv : Invariant s ((k, mode) :: rest)) (found : s.contexts k = some context)
    (inside : cancels context.point = true) {l : Nat} {other : Context}
    (there : s.contexts l = some other) (finish : (s.tasks other.base).finishTo = some k)
    {final : Nat} {before after : List Nat} (marked : (s.tasks final).uninterruptable = true)
    (split : other.chain = before ++ final :: after) (more : after ≠ [])
    (open_ : ∀ t ∈ after, (s.tasks t).uninterruptable = false) :
    Invariant (s.setStatus final .canceled) ((k, mode) :: rest) := by
  have restates : Restates s (s.setStatus final .canceled) final := restates_setStatus .canceled
  have sound := inv.sound l other there
  obtain ⟨apart, parked⟩ := adoptee_parked inv found there finish
  have member : final ∈ other.chain := by simp [split]
  have target : final ∈ other.awaits.map Frame.target :=
    (chain_cases member).resolve_right (outer_not_base sound.nodup split more)
  have unclaimed := awaited_unclaimed inv there target
  have canceled : ((s.setStatus final .canceled).tasks final).status = .canceled := by
    rw [State.setStatus, setTask_self]
  have status {t : Nat} (different : t ≠ final) :
      ((s.setStatus final .canceled).tasks t).status = (s.tasks t).status := by
    rw [restates.tasks t different]
  refine { nested := ?nested, exec := inv.exec, sound := ?sound, fresh := ?fresh, unused := ?unused,
           running := ?running, bounded := inv.bounded, done := ?done, past := inv.past,
           armed := ?armed, signal := inv.signal, current := inv.current }
  case nested =>
      refine nested_congr inv.nested (fun _ _ _ _ context found => ⟨context, found, rfl, rfl⟩)
        (fun _ _ => rfl) (fun _ other _ => ?_)
      exact ⟨(restates.fields _).2.2.2.2.1, (restates.fields _).1⟩
  case sound =>
      intro l' holder here
      rw [restates.contexts] at here
      by_cases same : l' = l
      · subst same
        rw [there] at here
        cases here
        rw [parked] at sound ⊢
        refine restates.sound sound rfl ?_ (restates.parked (placed_parked sound.placed)
          sound.placed
          fun which children kind group => unclaimed l' other which children there kind group)
        have statuses := sound.statuses
        unfold Statuses at statuses ⊢
        rw [if_neg (by simp)] at statuses ⊢
        intro t among
        by_cases here : t = final
        · subst here
          refine Or.inr (Or.inr ⟨canceled, (restates.fields t).2.2.2.2.2.2.trans marked, rfl,
            restates.doomed ⟨k, context, finish, found, inside⟩, before, after, split, more,
            fun later outer => ?_⟩)
          rw [(restates.fields later).2.2.2.2.2.2]
          exact open_ later outer
        · rcases statuses t among with running | unready | flagged
          · exact Or.inl ((status here).trans running)
          · obtain ⟨at_, point⟩ := placed_parked sound.placed
            have returning := unready.2.2.1
            rw [point] at returning
            cases returning
          · obtain ⟨already, protect, token, sheltered, first, outer, split', more', outside⟩ :=
              flagged
            refine Or.inr (Or.inr ⟨(status here).trans already,
              (restates.fields t).2.2.2.2.2.2.trans protect, token, restates.doomed sheltered,
              first, outer, split', more', fun later among => ?_⟩)
            rw [(restates.fields later).2.2.2.2.2.2]
            exact outside later among
      · refine restates.elsewhere (inv.sound l' holder here)
          (fun again => same (engaged_once inv here there again member)) ?_
          fun which children kind group => unclaimed l' holder which children here kind group
        by_cases running : l' = k
        · subst running
          rw [found] at here
          cases here
          intro goal
          rw [goal] at inside
          cases inside
        · exact other_not_goal inv found running here
  case fresh =>
      intro t live ready
      have different : t ≠ final := by
        rintro rfl
        rw [canceled] at ready
        cases ready
      rw [status different] at ready
      rw [(restates.fields t).2.1]
      exact inv.fresh t live ready
  case unused =>
      intro t live unstarted
      have different : t ≠ final := by
        rintro rfl
        simp [canceled] at unstarted
      rw [status different] at unstarted
      rw [(restates.fields t).2.2.1, (restates.fields t).2.2.2.2.2.1]
      exact inv.unused t live unstarted
  case running =>
      intro t live running
      have different : t ≠ final := by
        rintro rfl
        rw [canceled] at running
        cases running
      rw [status different] at running
      exact inv.running t live running
  case done =>
      intro t
      rw [restates.done, inv.done t]
      by_cases here : t = final
      · subst here
        rw [canceled]
        exact ⟨fun completed => absurd completed (unended inv there member), by simp⟩
      · rw [status here]
  case armed =>
      intro t armed
      rw [(restates.fields t).1]
      exact inv.armed t armed

theorem running_child (inv : Invariant s ((k, mode) :: rest)) (found : s.contexts k = some context)
    {which : Combinator} {children : List Nat} {child : Nat}
    (kind : (s.tasks context.inner).kind = .group which children)
    (inside : cancels context.point = true) (member : child ∈ children)
    (running : (s.tasks child).status = .running) :
    ∃ l other, s.contexts l = some other ∧ other.base = child ∧ (s.tasks child).uid = some l ∧
      (s.tasks child).finishTo = some k ∧ l ≠ k ∧
      modeOf ((k, mode) :: rest) l = .parked := by
  have family := placed_family (placed_of inv found) kind (cancels_opened inside)
  obtain ⟨l, other, there, base, finish⟩ := child_context inv family found member running
  have reports : (s.tasks other.base).finishTo = some k := by rw [base]; exact finish
  refine ⟨l, other, there, base, ?_, finish, adoptee_parked inv found there reports⟩
  rw [← base]
  exact ((inv.sound l other there).owned _ (base_mem other)).2

def signals (s : State) (k : Nat) (context : Context) (i unsupport : Nat)
    (caller : CancelCaller) (child l : Nat) : State :=
  { ({ s.setStatus child .canceled with signal := true } : State).moveTo k context
      (.canceling i unsupport caller) with
    exec := some l
    current := s.manager l }

theorem placed_unwinds {l : Nat} {other : Context} (placed : Placed s l other .parked)
    (open_ : (s.tasks other.inner).uninterruptable = false) : Placed s l other .cancelling := by
  obtain ⟨at_, point⟩ := placed_parked placed
  cases at_ with
  | event =>
      simp only [Placed, point] at placed ⊢
      exact placed
  | wait count =>
      simp only [Placed, point] at placed ⊢
      exact placed
  | cancelWait unsupport caller =>
      simp only [Placed, point] at placed
      rw [open_] at placed
      simp at placed

theorem child_unwinds {l : Nat} {other : Context} (sound : Sound s l other .parked)
    (open_ : ∀ t ∈ other.chain, (s.tasks t).uninterruptable = false) :
    Sound (s.setStatus other.base .canceled) l other .cancelling := by
  have restates : Restates s (s.setStatus other.base .canceled) other.base :=
    restates_setStatus .canceled
  refine restates.sound sound rfl ?_ (placed_unwinds ?_ ?_)
  · have statuses := sound.statuses
    unfold Statuses at statuses ⊢
    rw [if_neg (by simp)] at statuses
    rw [if_pos rfl]
    have canceled : ((s.setStatus other.base .canceled).tasks other.base).status = .canceled := by
      rw [State.setStatus, setTask_self]
    refine ⟨canceled, fun t member => ?_⟩
    rw [(restates.fields t).2.2.2.2.2.2]
    refine ⟨open_ t member, ?_⟩
    by_cases here : t = other.base
    · subst here
      exact Or.inr ⟨canceled, fun _ _ => rfl⟩
    · rw [restates.tasks t here]
      rcases statuses t member with running | unready | flagged
      · exact Or.inl running
      · obtain ⟨at_, point⟩ := placed_parked sound.placed
        have returning := unready.2.2.1
        rw [point] at returning
        cases returning
      · have protect := flagged.uninterruptable
        rw [open_ t member] at protect
        cases protect
  · refine restates.parked (placed_parked sound.placed) sound.placed fun which children kind group => ?_
    intro child
    exact (placed_family sound.placed kind group).apart _ child (base_mem other)
  · rw [(restates.fields _).2.2.2.2.2.2]
    exact open_ _ (inner_mem other)

variable {i unsupport child l : Nat} {caller : CancelCaller} {other : Context}

theorem signals_other {q : Nat} {reporter : Context} (inv : Invariant s ((k, mode) :: rest))
    (found : s.contexts k = some context) (there : s.contexts q = some reporter) (apart : q ≠ k) (away : child ∉ reporter.chain)
    (finish : (s.tasks child).finishTo = some k) :
    Sound (signals s k context i unsupport caller child l) q reporter
      (modeOf ((k, mode) :: rest) q) := by
  have restates : Restates s (s.setStatus child .canceled) child := restates_setStatus .canceled
  have same (t : Nat) (different : t ≠ child) :
      (signals s k context i unsupport caller child l).tasks t = s.tasks t :=
    restates.tasks t different
  refine sound_sheltered (inv.sound q reporter there) (other_not_goal inv found apart there)
    (fun t member => ⟨same t fun here => away (here ▸ member), rfl⟩) ?_ (fun _ _ _ _ _ => rfl) rfl
    (Nat.le_refl _) (fun q' different => Function.update_of_ne different _ _)
    (fun _ parent _ => (restates.fields parent.inner).1) ?_
  · intro which children kind open_ t member
    have different : t ≠ child := by
      rintro rfl
      exact apart (base_claimed inv there kind open_ member finish)
    rw [same t different]
    exact ⟨rfl, rfl, Or.inl ⟨rfl, fun _ => rfl⟩⟩
  · intro _ parent holder _
    rw [found] at holder
    cases holder
    exact ⟨_, Function.update_self .., rfl, rfl, rfl, fun _ => rfl⟩

theorem signals_self (inv : Invariant s ((k, mode) :: rest)) (found : s.contexts k = some context)
    {which : Combinator} {children : List Nat}
    (point : context.point = .cancelLoop i unsupport caller)
    (kind : (s.tasks context.inner).kind = .group which children)
    (here : children[i]? = some child) :
    Sound (signals s k context i unsupport caller child l) k
      { context with point := .canceling i unsupport caller } mode := by
  have sound := inv.sound k context found
  rw [modeOf_head] at sound
  have placed := sound.placed
  simp only [Placed, point] at placed
  obtain ⟨which', children', kind', family, -, count, calls⟩ := placed
  obtain ⟨rfl, rfl⟩ := same_group kind kind'
  have restates : Restates s (s.setStatus child .canceled) child := restates_setStatus .canceled
  have away : child ∉ context.chain := family.apart child (List.mem_of_getElem? here)
  have same {t : Nat} (member : t ∈ context.chain) :
      (signals s k context i unsupport caller child l).tasks t = s.tasks t :=
    restates.tasks t fun same => away (same ▸ member)
  have canceled :
      ((signals s k context i unsupport caller child l).tasks child).status = .canceled := by
    change ((s.setStatus child .canceled).tasks child).status = .canceled
    rw [State.setStatus, setTask_self]
  have kept (q : Nat) (apart : q ≠ k) :
      (signals s k context i unsupport caller child l).contexts q = s.contexts q :=
    Function.update_of_ne apart _ _
  refine { owned := ?owned, nodup := sound.nodup, manager := sound.manager, stamp := sound.stamp,
           mirrors := ?mirrors, parents := sound.parents, outer := ?outer, awaited := ?awaited,
           token := ?token, spent := by simp, adopted := ?adopted, statuses := ?statuses,
           placed := ?placed }
  case owned =>
      intro t member
      rw [same member]
      exact sound.owned t member
  case mirrors =>
      exact mirrors_congr (fun t member => by rw [same member]) sound.mirrors
  case outer =>
      intro t member
      rw [same (List.mem_of_mem_tail member)]
      exact sound.outer t member
  case awaited =>
      intro t member
      rw [same (by simp only [Context.chain, List.mem_append]; exact Or.inl member)]
      exact sound.awaited t member
  case token =>
      rw [moves_inner, same (inner_mem context)]
      exact sound.token
  case adopted =>
      intro q finish
      rw [same (base_mem context)] at finish
      obtain ⟨parent, which, group, there, kind, open_, earlier, member⟩ := sound.adopted q finish
      exact ⟨parent, which, group, (kept q (parent_apart inv found finish)).trans there,
        (restates.fields _).1.trans kind, open_, earlier, member⟩
  case statuses =>
      refine statuses_repoint sound.statuses sound.nodup ?_ (fun t member => by rw [same member])
        (fun t member => Or.inl (by rw [same member])) (by simp [point]) (by simp)
      exact doomed_stays inv found kept rfl (by rw [same (base_mem context)])
  case placed =>
      refine ⟨which', children', child, (restates.fields _).1.trans kind, ?_, here, ?_, ?_, ?_⟩
      · exact ⟨family.nodup, family.live, fun t member =>
          (restates.fields t).2.2.2.2.1.trans (family.finish t member), family.apart⟩
      · rw [canceled]
        simp
      · rw [active_congr (s := s) fun t member => ?_]
        · exact count
        · have different : t ≠ child := by
            rintro rfl
            exact (nodup_around family.nodup here).1 member
          exact congrArg Task.status (restates.tasks t different)
      · exact calls_congr (same (inner_mem context)) rfl calls

theorem step_signals (inv : Invariant s ((k, mode) :: rest)) (found : s.contexts k = some context)
    {which : Combinator} {children : List Nat}
    (point : context.point = .cancelLoop i unsupport caller)
    (kind : (s.tasks context.inner).kind = .group which children)
    (here : children[i]? = some child) (running : (s.tasks child).status = .running)
    (there : s.contexts l = some other) (base : other.base = child)
    (open_ : ∀ t ∈ other.chain, (s.tasks t).uninterruptable = false) :
    Invariant (signals s k context i unsupport caller child l)
      ((l, .cancelling) :: (k, mode) :: rest) := by
  subst base
  have inside : cancels context.point = true := by rw [point]; rfl
  have family := placed_family (placed_of inv found) kind (cancels_opened inside)
  have finish := family.finish _ (List.mem_of_getElem? here)
  obtain ⟨apart, parked⟩ := adoptee_parked inv found there finish
  have sound := inv.sound l other there
  have restates : Restates s (s.setStatus other.base .canceled) other.base :=
    restates_setStatus .canceled
  have moved : (signals s k context i unsupport caller other.base l).contexts k =
      some { context with point := .canceling i unsupport caller } := Function.update_self ..
  have kept (q : Nat) (different : q ≠ k) :
      (signals s k context i unsupport caller other.base l).contexts q = s.contexts q :=
    Function.update_of_ne different _ _
  have status {t : Nat} (different : t ≠ other.base) :
      ((signals s k context i unsupport caller other.base l).tasks t).status =
        (s.tasks t).status := congrArg Task.status (restates.tasks t different)
  have canceled : ((signals s k context i unsupport caller other.base l).tasks
      other.base).status = .canceled := by
    change ((s.setStatus other.base .canceled).tasks other.base).status = .canceled
    rw [State.setStatus, setTask_self]
  obtain ⟨parent, which', group, holder, -, -, earlier, -⟩ := sound.adopted k finish
  rw [found] at holder
  cases holder
  refine { nested := ⟨?link, ?nested⟩, exec := rfl, sound := ?sound, fresh := ?fresh,
           unused := ?unused, running := ?running, bounded := inv.bounded, done := ?done,
           past := inv.past, armed := ?armed, signal := ?signal, current := ?current }
  case link =>
      exact ⟨other, _, (kept l apart).trans there, moved, earlier, rfl,
        (restates.fields _).2.2.2.2.1.trans finish, which, children,
        (restates.fields _).1.trans kind, here⟩
  case nested =>
      refine nested_congr inv.nested ?_ (fun q member => ?_) (fun q reporter _ =>
        ⟨(restates.fields _).2.2.2.2.1, (restates.fields _).1⟩)
      · intro q mode' below shape reporter place
        cases shape
        rw [found] at place
        cases place
        exact ⟨_, moved, rfl, rfl⟩
      · refine kept q ?_
        rintro rfl
        exact head_not_below inv found member
  case sound =>
      intro q reporter place
      by_cases self : q = k
      · subst self
        rw [moved] at place
        cases place
        rw [modeOf_tail _ _ apart.symm, modeOf_head]
        exact signals_self inv found point kind here
      · rw [kept q self] at place
        by_cases same : q = l
        · subst same
          rw [there] at place
          cases place
          rw [modeOf_head]
          rw [parked] at sound
          -- The child sees only that its combinator has gone on in the cancel loop.
          refine sound_sheltered (child_unwinds sound open_) (other_not_goal inv found apart there)
            (fun _ _ => ⟨rfl, rfl⟩) (fun _ _ _ _ _ _ => ⟨rfl, rfl, Or.inl ⟨rfl, fun _ => rfl⟩⟩)
            (fun _ _ _ _ _ => rfl) rfl (Nat.le_refl _) kept (fun _ _ _ => rfl) ?_
          intro _ parent holder _
          change s.contexts k = some parent at holder
          rw [found] at holder
          cases holder
          exact ⟨_, moved, rfl, rfl, rfl, fun _ => rfl⟩
        · rw [modeOf_tail _ _ same]
          exact signals_other inv found place self
            (fun again => same (engaged_once inv place there again (base_mem other))) finish
  case fresh =>
      intro t live ready
      have different : t ≠ other.base := by
        rintro rfl
        rw [canceled] at ready
        cases ready
      rw [status different] at ready
      obtain ⟨j, own, managed, free⟩ := inv.fresh t live ready
      refine ⟨j, (restates.fields t).2.1.trans own, managed, ?_⟩
      rw [kept j]
      · exact free
      · rintro rfl
        rw [found] at free
        cases free
  case unused =>
      intro t live unstarted
      have different : t ≠ other.base := by
        rintro rfl
        simp [canceled] at unstarted
      rw [status different] at unstarted
      obtain ⟨reuse, chosen⟩ := inv.unused t live unstarted
      exact ⟨(restates.fields t).2.2.1.trans reuse, (restates.fields t).2.2.2.2.2.1.trans chosen⟩
  case running =>
      intro t live runs
      have different : t ≠ other.base := by
        rintro rfl
        rw [canceled] at runs
        cases runs
      rw [status different] at runs
      obtain ⟨q, reporter, place, member⟩ := inv.running t live runs
      by_cases self : q = k
      · subst self
        rw [found] at place
        cases place
        exact ⟨q, _, moved, member⟩
      · exact ⟨q, reporter, (kept q self).trans place, member⟩
  case done =>
      intro t
      change t ∈ s.done ↔ _
      rw [inv.done t]
      by_cases same : t = other.base
      · subst same
        rw [canceled, running]
        simp
      · rw [status same]
  case armed =>
      intro t armed
      obtain ⟨event, q, reporter, place, inner, at_, unlive⟩ := inv.armed t armed
      -- a task with a pending event is at its yield, not in the cancel loop
      have self : q ≠ k := by
        rintro rfl
        rw [found] at place
        cases place
        simp [point] at at_
      refine ⟨(restates.fields t).1.trans event, q, reporter, (kept q self).trans place, inner, at_,
        ?_⟩
      by_cases same : q = l
      · subst same
        rw [modeOf_head]
        rintro ⟨token, bad⟩
        cases bad
      · rw [modeOf_tail _ _ same]
        exact unlive
  case signal =>
      refine ⟨fun _ => ?_, fun _ => rfl⟩
      rw [parked] at sound
      obtain ⟨at_, yields⟩ := placed_parked sound.placed
      exact ⟨l, other, _, at_, rfl, (kept l apart).trans there, yields⟩
  case current =>
      intro q reporter runs place
      cases runs
      rw [kept l apart, there] at place
      cases place
      exact ⟨other.base, base_mem other, sound.manager⟩

end Loop

end Cocoflow.SchedulerCancel
