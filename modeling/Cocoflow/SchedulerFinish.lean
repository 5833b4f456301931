import Mathlib.Logic.Function.Basic
import Mathlib.Data.List.Basic
import Cocoflow.SchedulerSwitch

/-!
The end of a task in `__task_runtime`, and the callbacks of the event loop. A coroutine that
ends leaves the stack. Either control goes to the coroutine below it, or the coroutine was
resumed by the event loop: then it ends in the event loop, or it wakes the combinator it
reports to, whose books now show one child less.
-/

namespace Cocoflow.SchedulerFinish

open LabelledRuns PointUpdates Scheduler SchedulerNest SchedulerLocal SchedulerSteps
open SchedulerObjects SchedulerCancel SchedulerSwitch

/-- The state `s'` behind the end of the base task of coroutine `k`. -/
structure Ends (s s' : State) (k : Nat) (context : Context) (next : Option Nat) : Prop where
  alone : context.awaits = []
  contexts : s'.contexts = Function.update s.contexts k none
  exec : s'.exec = next
  current : s'.current = next.bind s.manager
  clock : s'.clock = s.clock
  allocated : s'.next = s.next
  signal : s'.signal = false
  armed : ∀ t, s'.armed t = true → s.armed t = true ∧ t ≠ context.base
  tasks : ∀ t, t ≠ context.base → s'.tasks t = s.tasks t
  base : s'.tasks context.base =
    { s.tasks context.base with status := (s'.tasks context.base).status }
  status : (s'.tasks context.base).status = .completed ∨
    (s'.tasks context.base).status = .canceled ∨
    (s'.tasks context.base).status = .childUnready
  live : s'.live = s.live ∨ (s.tasks context.base).finishTo = none ∧
    s'.live = Function.update s.live context.base false
  manager : ∀ l, l ≠ k → s'.manager l = s.manager l
  done : (s'.tasks context.base).status = .completed ∧ s'.done = s.done ++ [context.base] ∨
    (s'.tasks context.base).status ≠ .completed ∧ s'.done = s.done
  childless : ∀ l other, s.contexts l = some other →
    (s.tasks other.base).finishTo ≠ some k

section End

variable {s s' : State} {k : Nat} {mode : Mode} {rest nest : Nest} {context : Context}
variable {next : Option Nat}

theorem ends_chain (ends : Ends s s' k context next) :
    context.inner = context.base ∧ context.chain = [context.base] := by
  unfold Context.inner Context.chain
  rw [ends.alone]
  exact ⟨rfl, rfl⟩

theorem ends_fields (ends : Ends s s' k context next) (t : Nat) :
    (s'.tasks t).kind = (s.tasks t).kind ∧ (s'.tasks t).uid = (s.tasks t).uid ∧
      (s'.tasks t).reuse = (s.tasks t).reuse ∧ (s'.tasks t).blockTo = (s.tasks t).blockTo ∧
      (s'.tasks t).finishTo = (s.tasks t).finishTo ∧
      (s'.tasks t).completedId = (s.tasks t).completedId ∧
      (s'.tasks t).uninterruptable = (s.tasks t).uninterruptable := by
  by_cases here : t = context.base
  · subst here
    rw [ends.base]
    exact ⟨rfl, rfl, rfl, rfl, rfl, rfl, rfl⟩
  · rw [ends.tasks t here]
    exact ⟨rfl, rfl, rfl, rfl, rfl, rfl, rfl⟩

theorem ends_kept (ends : Ends s s' k context next) {q : Nat} (apart : q ≠ k) :
    s'.contexts q = s.contexts q := by
  rw [ends.contexts, Function.update_of_ne apart]

theorem ends_live (ends : Ends s s' k context next) {t : Nat} (live : s'.live t = true) :
    s.live t = true := by
  rcases ends.live with same | ⟨-, gone⟩
  · rwa [same] at live
  · rw [gone] at live
    by_cases here : t = context.base
    · rw [here, Function.update_self] at live
      cases live
    · rwa [Function.update_of_ne here] at live

theorem ends_other (inv : Invariant s nest) (found : s.contexts k = some context)
    (ends : Ends s s' k context next) {l : Nat} {other : Context} (apart : l ≠ k)
    (there : s.contexts l = some other) (goal : other.point ≠ .goal)
    (seen : ∀ which children, (s.tasks other.inner).kind = .group which children →
      opened other.point = true → context.base ∈ children →
        (∃ i count, other.point = .started i count ∧ children[i]? = some context.base) ∧
          (s'.tasks context.base).status ≠ .canceled ∨
        (s'.tasks context.base).status = (s.tasks context.base).status ∧ s'.done = s.done) :
    Sound s' l other (modeOf nest l) := by
  have elsewhere : context.base ∉ other.chain := fun again =>
    apart (engaged_once inv there found again (base_mem context))
  have reports {which : Combinator} {children : List Nat}
      (kind : (s.tasks other.inner).kind = .group which children)
      (open_ : opened other.point = true) (member : context.base ∈ children) :
      (s.tasks context.base).finishTo = some l :=
    (placed_family (inv.sound l other there).placed kind open_).finish _ member
  refine sound_sheltered (inv.sound l other there) goal (fun t member => ?_) ?_ ?_
    (ends.manager l apart) (Nat.le_of_eq ends.clock.symm) (fun q different => ends_kept ends different)
    (fun _ parent _ => (ends_fields ends parent.inner).1)
    (fun finish => absurd finish (ends.childless l other there))
  · have different : t ≠ context.base := fun same => elsewhere (same ▸ member)
    refine ⟨ends.tasks t different, ?_⟩
    rcases ends.live with same | ⟨-, gone⟩
    · rw [same]
    · rw [gone, Function.update_of_ne different]
  · intro which children kind open_ t member
    have live : s'.live t = s.live t := by
      rcases ends.live with same | ⟨free, gone⟩
      · rw [same]
      · rw [gone, Function.update_of_ne]
        rintro rfl
        rw [reports kind open_ member] at free
        cases free
    refine ⟨live, (ends_fields ends t).2.2.2.2.1, ?_⟩
    by_cases here : t = context.base
    · subst here
      rcases seen which children kind open_ member with starting | ⟨same, -⟩
      · exact Or.inr starting
      · exact Or.inl ⟨same, fun _ => (ends_fields ends _).2.2.2.1⟩
    · rw [ends.tasks t here]
      exact Or.inl ⟨rfl, fun _ => rfl⟩
  · intro which children kind open_ onward
    by_cases member : context.base ∈ children
    · rcases seen which children kind open_ member with ⟨⟨i, count, point, -⟩, -⟩ | ⟨-, same⟩
      · exact absurd point (onward i count)
      · rw [same]
    · rcases ends.done with ⟨-, more⟩ | ⟨-, same⟩
      · rw [more, List.find?_append]
        simp [member]
      · rw [same]

-- The rule for ends, for a given stack behind the end.
theorem inv_ends {after : Nest} (inv : Invariant s nest) (found : s.contexts k = some context)
    (ends : Ends s s' k context next) (nested : Nested s' after)
    (head : next = after.head?.map Prod.fst)
    (sound : ∀ l other, l ≠ k → s.contexts l = some other → Sound s' l other (modeOf after l))
    (modes : ∀ l other, l ≠ k → s.contexts l = some other →
      (s.tasks other.inner).kind = .event → ¬(modeOf nest l).Live → ¬(modeOf after l).Live)
    (unsignalled : ¬∃ l other below at_, after = (l, .cancelling) :: below ∧
      s'.contexts l = some other ∧ other.point = .yielded at_) : Invariant s' after := by
  obtain ⟨inner, chain⟩ := ends_chain ends
  have member : context.base ∈ context.chain := base_mem context
  have ended : (s'.tasks context.base).status ≠ .ready ∧
      (s'.tasks context.base).status ≠ .limited ∧ (s'.tasks context.base).status ≠ .running := by
    rcases ends.status with completed | canceled | unready
    · simp [completed]
    · simp [canceled]
    · simp [unready]
  have old {l : Nat} {other : Context} (there : s'.contexts l = some other) :
      l ≠ k ∧ s.contexts l = some other := by
    rw [ends.contexts] at there
    by_cases same : l = k
    · rw [same, Function.update_self] at there
      cases there
    · rw [Function.update_of_ne same] at there
      exact ⟨same, there⟩
  refine { nested := nested, exec := ends.exec.trans head,
           sound := fun l other there => sound l other (old there).1 (old there).2, fresh := ?fresh,
           unused := ?unused, running := ?running, bounded := fun t live => ?bounded, done := ?done,
           past := ?past, armed := ?armed, signal := ?signal, current := ?current }
  case fresh =>
      intro t live ready
      have apart : t ≠ context.base := by
        rintro rfl
        exact ended.1 ready
      rw [ends.tasks t apart] at ready ⊢
      obtain ⟨j, own, managed, free⟩ := inv.fresh t (ends_live ends live) ready
      have different : j ≠ k := by
        rintro rfl
        rw [found] at free
        cases free
      exact ⟨j, own, (ends.manager j different).trans managed,
        (ends_kept ends different).trans free⟩
  case unused =>
      intro t live unstarted
      have apart : t ≠ context.base := by
        rintro rfl
        rcases unstarted with ready | limited
        · exact ended.1 ready
        · exact ended.2.1 limited
      rw [ends.tasks t apart] at unstarted ⊢
      exact inv.unused t (ends_live ends live) unstarted
  case running =>
      intro t live running
      have apart : t ≠ context.base := by
        rintro rfl
        exact ended.2.2 running
      rw [ends.tasks t apart] at running
      obtain ⟨l, other, there, inside⟩ := inv.running t (ends_live ends live) running
      have different : l ≠ k := by
        rintro rfl
        rw [found] at there
        cases there
        rw [chain] at inside
        exact apart (List.mem_singleton.mp inside)
      exact ⟨l, other, (ends_kept ends different).trans there, inside⟩
  case bounded =>
      rw [ends.allocated]
      exact inv.bounded t (ends_live ends live)
  case done =>
      intro t
      by_cases here : t = context.base
      · subst here
        rcases ends.done with ⟨completed, more⟩ | ⟨open_, same⟩
        · simp [completed, more]
        · rw [same, inv.done]
          exact iff_of_false (unended inv found member) open_
      · rw [ends.tasks t here, ← inv.done t]
        rcases ends.done with ⟨-, more⟩ | ⟨-, same⟩
        · simp [more, here]
        · rw [same]
  case past =>
      intro t inside
      rw [ends.allocated]
      rcases ends.done with ⟨-, more⟩ | ⟨-, same⟩
      · rw [more] at inside
        rcases List.mem_append.mp inside with before | last
        · exact inv.past t before
        · cases List.mem_singleton.mp last
          exact inv.bounded _ ((inv.sound k context found).owned _ member).1
      · exact inv.past t (same ▸ inside)
  case armed =>
      intro t armed
      obtain ⟨before, apart⟩ := ends.armed t armed
      obtain ⟨event, l, other, there, holder, point, unlive⟩ := inv.armed t before
      have different : l ≠ k := by
        rintro rfl
        rw [found] at there
        cases there
        exact apart (holder.symm.trans inner)
      refine ⟨(ends_fields ends t).1.trans event, l, other, (ends_kept ends different).trans there,
        holder, point, modes l other different there ?_ unlive⟩
      rw [holder]
      exact event
  case signal =>
      refine iff_of_false ?_ unsignalled
      simp [ends.signal]
  case current =>
      intro l other runs there
      obtain ⟨different, place⟩ := old there
      refine ⟨other.base, base_mem other, ?_⟩
      rw [ends.exec] at runs
      rw [ends.current, runs]
      exact (inv.sound l other place).manager

theorem base_below (inv : Invariant s ((k, mode) :: rest)) (found : s.contexts k = some context)
    {l : Nat} (finish : (s.tasks context.base).finishTo = some l) (more : rest ≠ []) :
    ∃ lower, s.contexts l = some lower ∧ rest.head?.map Prod.fst = some l ∧
      ((∃ i count which children, lower.point = .started i count ∧
        (s.tasks lower.inner).kind = .group which children ∧
        children[i]? = some context.base) ∨ mode = .cancelling) := by
  cases rest with
  | nil => exact absurd rfl more
  | cons entry below =>
      obtain ⟨q, mode'⟩ := entry
      obtain ⟨upper, lower, same, there, -, waits⟩ := inv.nested.1
      rw [found] at same
      cases same
      cases point : lower.point with
      | inStart target =>
          simp only [point] at waits
          obtain ⟨rfl, -, free⟩ := waits
          rw [finish] at free
          cases free
      | started i count =>
          simp only [point] at waits
          obtain ⟨-, back, which, children, kind, here⟩ := waits
          rw [finish] at back
          cases back
          exact ⟨lower, there, rfl, Or.inl ⟨i, count, which, children, point, kind, here⟩⟩
      | canceling i unsupport caller =>
          simp only [point] at waits
          obtain ⟨cancelling, back, -⟩ := waits
          rw [finish] at back
          cases back
          exact ⟨lower, there, rfl, Or.inr cancelling⟩
      | _ => simp [point] at waits

theorem ends_below (inv : Invariant s ((k, mode) :: rest)) (found : s.contexts k = some context)
    (ends : Ends s s' k context next) (head : next = rest.head?.map Prod.fst)
    (calm : mode = .cancelling →
      (s'.tasks context.base).status = (s.tasks context.base).status ∧ s'.done = s.done)
    (regular : mode ≠ .cancelling → rest ≠ [] → (s'.tasks context.base).status ≠ .canceled)
    (bottom : rest = [] → (s.tasks context.base).finishTo = none) : Invariant s' rest := by
  have fields := ends_fields ends
  refine inv_ends inv found ends ?_ head ?_ ?_
    (below_unsignalled inv found fun q apart => ends_kept ends apart)
  · refine nested_congr (nested_tail inv) ?_ ?_ fun l other _ =>
      ⟨(fields _).2.2.2.2.1, (fields _).1⟩
    · rintro l mode below rfl other there
      exact ⟨other, (ends_kept ends (below_found inv found rfl).1).trans there, rfl, rfl⟩
    · intro l member
      refine ends_kept ends ?_
      rintro rfl
      refine head_not_below inv found ?_
      rw [List.map_tail] at member
      exact List.mem_of_mem_tail member
  · intro l other apart there
    rw [← modeOf_tail mode rest apart]
    refine ends_other inv found ends apart there (other_not_goal inv found apart there) ?_
    intro which children kind open_ member
    have finish :=
      (placed_family (inv.sound l other there).placed kind open_).finish _ member
    have more : rest ≠ [] := by
      intro none
      rw [bottom none] at finish
      cases finish
    obtain ⟨lower, place, -, ⟨i, count, which', children', point, group, here⟩ | cancelling⟩ :=
      base_below inv found finish more
    · by_cases cancelling : mode = .cancelling
      · exact Or.inr (calm cancelling)
      · rw [there] at place
        cases place
        obtain ⟨rfl, rfl⟩ := same_group kind group
        exact Or.inl ⟨⟨i, count, point, here⟩, regular cancelling more⟩
    · exact Or.inr (calm cancelling)
  · intro l other apart _ _ unlive
    rwa [modeOf_tail mode rest apart] at unlive

theorem unfinished_drops (ends : Ends s s' k context next) {children : List Nat}
    (nodup : children.Nodup) (member : context.base ∈ children)
    (running : (s.tasks context.base).status = .running)
    (completed : (s'.tasks context.base).status = .completed) :
    unfinished s children = unfinished s' children + 1 := by
  refine count_dropped children context.base nodup member _ _ ?_ ?_ fun t apart => ?_
  · simp [running]
  · simp [completed]
  · rw [ends.tasks t apart]

theorem active_drops (ends : Ends s s' k context next) {children : List Nat}
    (nodup : children.Nodup) (member : context.base ∈ children)
    (running : (s.tasks context.base).status = .running) :
    active s children = active s' children + 1 := by
  refine count_dropped children context.base nodup member _ _ ?_ ?_ fun t apart => ?_
  · simp [running]
  · rcases ends.status with completed | canceled | unready
    · simp [completed]
    · simp [canceled]
    · simp [unready]
  · rw [ends.tasks t apart]

theorem picked_ends (ends : Ends s s' k context next) {group : Nat} {children : List Nat}
    (picked : Picked s group children) : Picked s' group children := by
  obtain ⟨i, t, chosen, place, first⟩ := picked
  refine ⟨i, t, (ends_fields ends group).2.2.2.2.2.1.trans chosen, place, ?_⟩
  unfold FirstDone at first ⊢
  rcases ends.done with ⟨-, more⟩ | ⟨-, same⟩
  · rw [more, List.find?_append, first]
    rfl
  · rw [same]
    exact first

theorem woken_any (inv : Invariant s nest) (ends : Ends s s' k context next)
    {children : List Nat} {count : Nat} (member : context.base ∈ children)
    (none : NoneCompleted s children)
    (completed : (s'.tasks context.base).status = .completed) :
    Woken s' .anyOf children count := by
  have before : s.done.find? (fun other => other ∈ children) = Option.none := by
    rw [List.find?_eq_none]
    intro t ended
    have finished := (inv.done t).mp ended
    simpa using fun among => none t among finished
  refine ⟨context.base, member, completed, ?_, fun other among finished => ?_⟩
  · unfold FirstDone
    rcases ends.done with ⟨-, more⟩ | ⟨open_, -⟩
    · rw [more, List.find?_append, before]
      simp [member]
    · exact absurd completed open_
  · by_cases here : other = context.base
    · exact here
    · rw [ends.tasks other here] at finished
      exact absurd finished (none other among)

theorem placed_wakes (inv : Invariant s nest) (ends : Ends s s' k context next)
    {p : Nat} {parent : Context} {which : Combinator} {children : List Nat}
    (there : s.contexts p = some parent) (parked : modeOf nest p = .parked)
    (kind : (s.tasks parent.inner).kind = .group which children)
    (open_ : opened parent.point = true) (member : context.base ∈ children)
    (running : (s.tasks context.base).status = .running)
    (way : (s'.tasks context.base).status = .completed ∨ cancels parent.point = true) :
    Placed s' p parent (.live none) := by
  have placed := (inv.sound p parent there).placed
  rw [parked] at placed
  obtain ⟨at_, point⟩ := placed_parked placed
  have fields := ends_fields ends
  have live : s'.live = s.live := by
    rcases ends.live with same | ⟨free, -⟩
    · exact same
    · rw [(placed_family placed kind open_).finish _ member] at free
      cases free
  have families {group : List Nat} (family : Family s p parent group) :
      Family s' p parent group :=
    family_congr family (fun t _ => by rw [live]) (fun t _ => (fields t).2.2.2.2.1)
  cases at_ with
  | event => simp [point, opened] at open_
  | wait count =>
      simp only [Placed, point] at placed ⊢
      obtain ⟨which', children', group, family, waits, -⟩ := placed
      obtain ⟨rfl, rfl⟩ := same_group kind group
      have completed : (s'.tasks context.base).status = .completed := by
        rcases way with completed | inside
        · exact completed
        · simp [point, cancels] at inside
      refine ⟨which', children', (fields _).1.trans kind, families family, ?_⟩
      cases which' with
      | allOf =>
          obtain ⟨counted, uncanceled⟩ := waits
          refine ⟨?_, fun t among => ?_⟩
          · rw [counted]
            exact unfinished_drops ends family.nodup member running completed
          · by_cases here : t = context.base
            · rw [here, completed]
              simp
            · rw [ends.tasks t here]
              exact uncanceled t among
      | anyOf => exact woken_any inv ends member waits.1 completed
  | cancelWait unsupport caller =>
      simp only [Placed, point] at placed ⊢
      obtain ⟨any, -, protect, children', group, family, picked, count⟩ := placed
      obtain ⟨rfl, rfl⟩ := same_group kind group
      refine ⟨any, by simp, (fields _).2.2.2.2.2.2.trans protect, children',
        (fields _).1.trans kind, families family, picked_ends ends picked, ?_⟩
      rw [count, active_drops ends family.nodup member running]

theorem sound_wakes (inv : Invariant s nest) (found : s.contexts k = some context)
    (ends : Ends s s' k context next) {p : Nat} {parent : Context} (apart : p ≠ k)
    (there : s.contexts p = some parent) (parked : modeOf nest p = .parked)
    (finish : (s.tasks context.base).finishTo ≠ none)
    (placed : Placed s' p parent (.live none)) : Sound s' p parent (.live none) := by
  have sound := inv.sound p parent there
  rw [parked] at sound
  have fields := ends_fields ends
  have same {t : Nat} (member : t ∈ parent.chain) : s'.tasks t = s.tasks t := by
    refine ends.tasks t ?_
    rintro rfl
    exact apart (engaged_once inv there found member (base_mem context))
  have live : s'.live = s.live := by
    rcases ends.live with same | ⟨free, -⟩
    · exact same
    · exact absurd free finish
  refine { owned := fun t member => ?owned, nodup := sound.nodup,
           manager := (ends.manager p apart).trans sound.manager,
           stamp := by rw [ends.clock]; exact sound.stamp,
           mirrors := mirrors_congr (fun t _ => (fields t).2.2.1) sound.mirrors,
           parents := sound.parents, outer := ?outer, awaited := ?awaited, token := ?token,
           spent := fun _ _ => rfl, adopted := ?adopted, statuses := ?statuses, placed := placed }
  case owned =>
      rw [live, (fields t).2.1]
      exact sound.owned t member
  case outer =>
      intro t member
      rw [(fields t).1, (fields t).2.2.2.1]
      exact sound.outer t member
  case awaited =>
      intro t member
      rw [(fields t).2.2.2.2.1]
      exact sound.awaited t member
  case token =>
      rw [(fields _).2.2.2.1]
      exact sound.token
  case adopted =>
      intro q back
      rw [(fields _).2.2.2.2.1] at back
      obtain ⟨holder, which, children, place, kind, open_, earlier, member⟩ := sound.adopted q back
      have different : q ≠ k := by
        rintro rfl
        exact ends.childless p parent there back
      exact ⟨holder, which, children, (ends_kept ends different).trans place,
        (fields _).1.trans kind, open_, earlier, member⟩
  case statuses =>
      have statuses := sound.statuses
      unfold Statuses at statuses ⊢
      rw [if_neg (by simp)] at statuses ⊢
      intro t member
      rcases statuses t member with running | unready | flagged
      · exact Or.inl (by rw [same member]; exact running)
      · obtain ⟨at_, point⟩ := placed_parked sound.placed
        have returning := unready.2.2.1
        rw [point] at returning
        cases returning
      · obtain ⟨status, protect, -, ⟨q, holder, back, place, inside⟩, first, outer, split, more,
          outside⟩ := flagged
        have different : q ≠ k := by
          rintro rfl
          exact ends.childless p parent there back
        refine Or.inr (Or.inr ⟨by rw [same member]; exact status,
          by rw [same member]; exact protect, rfl, ⟨q, holder, (fields _).2.2.2.2.1.trans back,
            (ends_kept ends different).trans place, inside⟩, first, outer, split, more,
          fun later among => ?_⟩)
        exact (fields later).2.2.2.2.2.2.trans (outside later among)

theorem ends_wakes (inv : Invariant s [(k, .live none)]) (found : s.contexts k = some context)
    {p : Nat} (ends : Ends s s' k context (some p))
    (finish : (s.tasks context.base).finishTo = some p)
    (running : (s.tasks context.base).status = .running)
    (way : (s'.tasks context.base).status = .completed ∨ Doomed s context) :
    Invariant s' [(p, .live none)] := by
  obtain ⟨parent, which, children, there, kind, open_, -, member⟩ :=
    (inv.sound k context found).adopted p finish
  have apart : p ≠ k := parent_apart inv found finish
  have parked : modeOf [(k, .live none)] p = .parked := modeOf_absent (by simpa using apart)
  have placed : Placed s' p parent (.live none) := by
    refine placed_wakes inv ends there parked kind open_ member running ?_
    rcases way with completed | ⟨q, holder, back, place, inside⟩
    · exact Or.inl completed
    · rw [finish] at back
      cases back
      rw [there] at place
      cases place
      exact Or.inr inside
  refine inv_ends inv found ends ⟨⟨parent, (ends_kept ends apart).trans there⟩, rfl⟩ rfl ?_ ?_ ?_
  · intro l other different place
    by_cases same : l = p
    · subst same
      rw [there] at place
      cases place
      rw [modeOf_head]
      exact sound_wakes inv found ends apart there parked (by simp [finish]) placed
    · have mode : modeOf [(p, .live none)] l = modeOf [(k, .live none)] l := by
        rw [modeOf_tail _ _ same, modeOf_tail _ _ different]
      rw [mode]
      refine ends_other inv found ends different place (other_not_goal inv found different place) ?_
      intro which' children' kind' open' member'
      have back :=
        (placed_family (inv.sound l other place).placed kind' open').finish _ member'
      rw [finish] at back
      exact absurd (Option.some.inj back).symm same
  · intro l other different place event _
    by_cases same : l = p
    · subst same
      rw [there] at place
      cases place
      rw [kind] at event
      cases event
    · rw [modeOf_tail _ _ same]
      rintro ⟨token, bad⟩
      cases bad
  · rintro ⟨l, other, below, at_, shape, -⟩
    cases shape

end End

structure Settles (s settled : State) (context : Context) : Prop where
  alone : context.awaits = []
  only : settled = { s with
    tasks := settled.tasks, armed := settled.armed, done := settled.done, signal := false }
  armed : ∀ t, settled.armed t = true → s.armed t = true ∧ t ≠ context.base
  tasks : ∀ t, t ≠ context.base → settled.tasks t = s.tasks t
  base : settled.tasks context.base =
    { s.tasks context.base with status := (settled.tasks context.base).status }
  status : (settled.tasks context.base).status = .completed ∨
    (settled.tasks context.base).status = .canceled ∨
    (settled.tasks context.base).status = .childUnready
  done : (settled.tasks context.base).status = .completed ∧
      settled.done = s.done ++ [context.base] ∨
    (settled.tasks context.base).status ≠ .completed ∧ settled.done = s.done

def Ended (s s' : State) (k : Nat) (rest : Nest) : Prop :=
  s'.contexts = Function.update s.contexts k none ∧
    (Invariant s' rest ∨ rest = [] ∧ ∃ p context, Invariant s' [(p, .live none)] ∧
      s'.contexts p = some context ∧ ∃ at_, context.point = .yielded at_)

def nextAfter (task : Task) : Option Nat :=
  if task.finishTo ≠ none ∨ task.blockTo = none then task.finishTo else task.blockTo

section Finish

variable {s settled s' : State} {k : Nat} {mode : Mode} {rest : Nest} {context : Context}

theorem quiet_settled (awake : s.signal = false) :
    s = { s with tasks := s.tasks, armed := s.armed, done := s.done, signal := false } := by
  rw [← awake]

theorem nextAfter_settled (settles : Settles s settled context) :
    nextAfter (settled.tasks context.base) = nextAfter (s.tasks context.base) := by
  rw [settles.base]
  rfl

theorem settled_ends (settles : Settles s settled context)
    (childless : ∀ l other, s.contexts l = some other → (s.tasks other.base).finishTo ≠ some k)
    (runs : s.exec = some k)
    (used : ∀ q, nextAfter (s.tasks context.base) = some q →
      q ≠ k ∧ ∃ lower, s.contexts q = some lower)
    (taken : runtimeFinish settled k context = some s') :
    Ends s s' k context (nextAfter (s.tasks context.base)) ∧ s'.tasks = settled.tasks ∧
      s'.done = settled.done := by
  have contexts : settled.contexts = s.contexts := by rw [settles.only]
  have exec : settled.exec = s.exec := by rw [settles.only]
  have manager : settled.manager = s.manager := by rw [settles.only]
  have live : settled.live = s.live := by rw [settles.only]
  have finish : (settled.tasks context.base).finishTo = (s.tasks context.base).finishTo := by
    rw [settles.base]
  have place (q : Nat) (going : nextAfter (settled.tasks context.base) = some q) :
      ∃ lower, Function.update settled.contexts k none q = some lower := by
    rw [nextAfter_settled settles] at going
    obtain ⟨apart, lower, there⟩ := used q going
    exact ⟨lower, by rw [Function.update_of_ne apart, contexts]; exact there⟩
  have current (q : Option Nat) (apart : q ≠ some k) (table : Nat → Option Nat)
      (kept : ∀ l, l ≠ k → table l = s.manager l) : q.bind table = q.bind s.manager := by
    cases q with
    | none => rfl
    | some l => exact kept l fun same => apart (by rw [same])
  have away : nextAfter (s.tasks context.base) ≠ some k := by
    intro same
    exact (used k same).1 rfl
  unfold runtimeFinish at taken
  dsimp only at taken
  change (if _ then swapRunning _ _ (nextAfter (settled.tasks context.base)) else
    swapRunning _ _ (nextAfter (settled.tasks context.base))) = some s' at taken
  split at taken
  · rename_i gone
    rw [swapRunning_back (by exact (exec.trans runs).symm) (by exact place)] at taken
    cases taken
    refine ⟨?_, rfl, rfl⟩
    refine { alone := settles.alone, contexts := by rw [← contexts],
             exec := nextAfter_settled settles, current := ?current, clock := ?clock,
             allocated := ?allocated, signal := ?signal, armed := settles.armed,
             tasks := settles.tasks, base := settles.base, status := settles.status,
             live := Or.inr ⟨finish.symm.trans gone.1, by rw [← live]⟩,
             manager := fun l apart => ?manager, done := settles.done, childless := childless }
    case current =>
        change (nextAfter (settled.tasks context.base)).bind
          (Function.update settled.manager k none) = _
        rw [nextAfter_settled settles]
        exact current _ away _ fun l apart => by rw [Function.update_of_ne apart, manager]
    case clock =>
        rw [settles.only]
    case allocated =>
        rw [settles.only]
    case signal =>
        rw [settles.only]
    case manager =>
        change Function.update settled.manager k none l = s.manager l
        rw [Function.update_of_ne apart, manager]
  · rw [swapRunning_back (by exact (exec.trans runs).symm) (by exact place)] at taken
    cases taken
    refine ⟨?_, rfl, rfl⟩
    refine { alone := settles.alone, contexts := by rw [← contexts],
             exec := nextAfter_settled settles, current := ?current, clock := ?clock,
             allocated := ?allocated, signal := ?signal, armed := settles.armed,
             tasks := settles.tasks, base := settles.base, status := settles.status,
             live := Or.inl (by rw [← live]), manager := fun l apart => by rw [← manager],
             done := settles.done, childless := childless }
    case current =>
        change (nextAfter (settled.tasks context.base)).bind settled.manager = _
        rw [nextAfter_settled settles, manager]
    case clock =>
        rw [settles.only]
    case allocated =>
        rw [settles.only]
    case signal =>
        rw [settles.only]

theorem ends_on_stack (inv : Invariant s ((k, mode) :: rest)) (found : s.contexts k = some context)
    (alone : context.awaits = []) (stacked : mode ≠ .live none) :
    rest ≠ [] ∧ nextAfter (s.tasks context.base) = rest.head?.map Prod.fst := by
  have sound := inv.sound k context found
  rw [modeOf_head] at sound
  have token := sound.token
  have inner : context.inner = context.base := by
    unfold Context.inner
    rw [alone]
  rw [inner] at token
  have more : rest ≠ [] := by
    rintro rfl
    exact stacked inv.nested.2
  refine ⟨more, ?_⟩
  unfold nextAfter
  cases finish : (s.tasks context.base).finishTo with
  | some p =>
      obtain ⟨lower, -, head, -⟩ := base_below inv found finish more
      rw [head]
      simp
  | none =>
      rcases head_mode inv with ⟨token', rfl⟩ | rfl
      · have below := token_below inv
        rw [token]
        cases token' with
        | none => exact absurd rfl stacked
        | some q =>
            rw [← below]
            simp [Mode.token]
      · -- A coroutine that is being unwound reports to the one below it.
        cases rest with
        | nil => exact absurd rfl more
        | cons entry below =>
            obtain ⟨q, mode'⟩ := entry
            obtain ⟨upper, lower, same, there, -, waits⟩ := inv.nested.1
            rw [found] at same
            cases same
            cases point : lower.point with
            | inStart target =>
                simp only [point] at waits
                cases waits.2.1
            | started i count =>
                simp only [point] at waits
                cases waits.1
            | canceling i unsupport caller =>
                simp only [point] at waits
                rw [finish] at waits
                cases waits.2.1
            | _ => simp [point] at waits

theorem step_finishes (inv : Invariant s ((k, mode) :: rest)) (found : s.contexts k = some context)
    (taken : runtimeFinish settled k context = some s') (settles : Settles s settled context)
    (childless : ∀ l other, s.contexts l = some other → (s.tasks other.base).finishTo ≠ some k)
    (calm : mode = .cancelling →
      (settled.tasks context.base).status = (s.tasks context.base).status ∧
        settled.done = s.done)
    (regular : mode.Live → rest ≠ [] → (settled.tasks context.base).status ≠ .canceled)
    (way : mode = .live none → (s.tasks context.base).finishTo ≠ none →
      (s.tasks context.base).status = .running ∧
        ((settled.tasks context.base).status = .completed ∨ Doomed s context)) :
    Ended s s' k rest := by
  have runs : s.exec = some k := inv.exec
  by_cases bottom : mode = .live none
  · subst bottom
    have empty : rest = [] := by
      have below := token_below inv
      cases rest with
      | nil => rfl
      | cons entry deeper => cases below
    subst empty
    have sound := inv.sound k context found
    rw [modeOf_head] at sound
    have token : (s.tasks context.base).blockTo = none := by
      have inner := sound.token
      unfold Context.inner at inner
      rw [settles.alone] at inner
      exact inner
    have next : nextAfter (s.tasks context.base) = (s.tasks context.base).finishTo := by
      simp [nextAfter, token]
    cases finish : (s.tasks context.base).finishTo with
    | none =>
        rw [finish] at next
        obtain ⟨ends, -⟩ := settled_ends settles childless runs (by simp [next]) taken
        rw [next] at ends
        exact ⟨ends.contexts, Or.inl (ends_below inv found ends rfl (by simp) (by simp) fun _ =>
          finish)⟩
    | some p =>
        rw [finish] at next
        obtain ⟨parent, -, -, there, -⟩ := sound.adopted p finish
        obtain ⟨ends, tasks, -⟩ := settled_ends settles childless runs (fun q going => by
          rw [next] at going
          cases going
          exact ⟨parent_apart inv found finish, parent, there⟩) taken
        rw [next] at ends
        obtain ⟨running, ended⟩ := way rfl (by simp [finish])
        rw [← tasks] at ended
        have apart : p ≠ k := parent_apart inv found finish
        have yields : ∃ at_, parent.point = .yielded at_ := by
          have parked := (inv.sound p parent there).placed
          rw [modeOf_tail _ _ apart] at parked
          exact placed_parked parked
        exact ⟨ends.contexts, Or.inr ⟨rfl, p, parent, ends_wakes inv found ends finish running ended,
          (ends_kept ends apart).trans there, yields⟩⟩
  · obtain ⟨more, next⟩ := ends_on_stack inv found settles.alone bottom
    obtain ⟨ends, tasks, done⟩ := settled_ends settles childless runs (fun q going => by
      rw [next] at going
      obtain ⟨apart, lower, there, -⟩ := below_found inv found going
      exact ⟨apart, lower, there⟩) taken
    rw [next] at ends
    refine ⟨ends.contexts, Or.inl (ends_below inv found ends rfl (fun cancelling => ?_)
      (fun uncancelled more => ?_) (fun empty => absurd empty more))⟩
    · rw [tasks, done]
      exact calm cancelling
    · rw [tasks]
      exact regular ((head_mode inv).resolve_right uncancelled) more

theorem no_adoptee_closed {nest : Nest} (inv : Invariant s nest)
    (found : s.contexts k = some context) (closed : opened context.point = false) {l : Nat}
    {other : Context} (there : s.contexts l = some other) :
    (s.tasks other.base).finishTo ≠ some k := by
  intro finish
  obtain ⟨parent, -, -, same, -, open_, -⟩ := (inv.sound l other there).adopted k finish
  rw [found] at same
  cases same
  rw [closed] at open_
  cases open_

theorem live_base (inv : Invariant s ((k, mode) :: rest)) (found : s.contexts k = some context)
    (live : mode.Live) :
    (s.tasks context.base).status = .running ∨ Unready s context mode context.base := by
  have sound := inv.sound k context found
  rw [modeOf_head] at sound
  have statuses := sound.statuses
  unfold Statuses at statuses
  rw [if_neg (by obtain ⟨token, rfl⟩ := live; simp)] at statuses
  rcases statuses context.base (base_mem context) with running | unready | flagged
  · exact Or.inl running
  · exact Or.inr unready
  · obtain ⟨inside, outer, split, more, -⟩ := flagged.outside
    exact absurd rfl (outer_not_base sound.nodup split more)

theorem step_runtime_returns (inv : Invariant s ((k, mode) :: rest))
    (found : s.contexts k = some context) (returns : context.point = .returning)
    (alone : context.awaits = []) (taken : runReturn s k context = some s') :
    Ended s s' k rest := by
  obtain ⟨awake, calm⟩ := calm_of inv found (Or.inr (by simp [returns]))
  have inner : context.inner = context.base := by
    unfold Context.inner
    rw [alone]
  rw [inner] at calm
  have armed (t : Nat) (pending : s.armed t = true) : s.armed t = true ∧ t ≠ context.base := by
    refine ⟨pending, ?_⟩
    rintro rfl
    rw [calm] at pending
    cases pending
  have childless (l : Nat) (other : Context) (there : s.contexts l = some other) :
      (s.tasks other.base).finishTo ≠ some k :=
    no_adoptee_closed inv found (by simp [returns, opened]) there
  have placed := placed_of inv found
  simp only [Placed, returns] at placed
  unfold runReturn at taken
  rw [alone] at taken
  dsimp only at taken
  split at taken
  · rename_i running
    have live : mode.Live := by
      rcases placed with live | ⟨rfl, -⟩
      · exact live
      · have canceled := (unwound inv found).1
        rw [running] at canceled
        cases canceled
    have completed : ((s.complete context.base).tasks context.base).status = .completed := by
      simp [State.complete, State.setStatus]
    refine step_finishes inv found taken ⟨alone, ?_, armed, ?_, ?_, Or.inl completed,
      Or.inl ⟨completed, rfl⟩⟩ childless ?_ (fun _ _ => by simp [completed])
      (fun _ _ => ⟨running, Or.inl completed⟩)
    · rw [← awake]
      rfl
    · intro t apart
      simp [State.complete, State.setStatus, setTask_other _ _ _ apart]
    · simp [State.complete, State.setStatus]
    · rintro rfl
      obtain ⟨token, bad⟩ := live
      cases bad
  · rename_i stopped
    have ended : (s.tasks context.base).status = .canceled ∨
        Unready s context mode context.base := by
      rcases placed with live | ⟨rfl, -⟩
      · exact Or.inr ((live_base inv found live).resolve_left stopped)
      · exact Or.inl (unwound inv found).1
    refine step_finishes inv found taken ⟨alone, quiet_settled awake, armed, fun _ _ => rfl, rfl,
      ?_, Or.inr ⟨?_, rfl⟩⟩ childless (fun _ => ⟨rfl, rfl⟩) (fun live _ => ?_)
      (fun bottom reports => ?_)
    · rcases ended with canceled | unready
      · exact Or.inr (Or.inl canceled)
      · exact Or.inr (Or.inr unready.1)
    · exact unended inv found (base_mem context)
    · rw [((live_base inv found live).resolve_left stopped).1]
      simp
    · subst bottom
      have unready := (live_base inv found ⟨none, rfl⟩).resolve_left stopped
      rcases unready.2.2.2 rfl with free | bad
      · exact absurd free reports
      · exact absurd rfl bad

theorem step_runtime_throws (inv : Invariant s ((k, mode) :: rest))
    (found : s.contexts k = some context) (taken : runtimeFinish settled k context = some s')
    (throws : context.point = .throwing) (alone : context.awaits = [])
    (plain : ∀ which children, (s.tasks context.inner).kind ≠ .group which children)
    (only : settled = { s with tasks := settled.tasks, armed := settled.armed })
    (tasks : settled.tasks = (s.setStatus context.inner .canceled).tasks)
    (armed : ∀ t, settled.armed t = true → s.armed t = true ∧ t ≠ context.inner) :
    Ended s s' k rest := by
  have awake := signal_false inv found (Or.inr (by simp [throws]))
  have inner : context.inner = context.base := by
    unfold Context.inner
    rw [alone]
  rw [inner] at tasks armed
  have done : settled.done = s.done := by rw [only]
  have canceled : (settled.tasks context.base).status = .canceled := by
    rw [tasks, State.setStatus, setTask_self]
  have placed := placed_of inv found
  simp only [Placed, throws] at placed
  have open_ : (settled.tasks context.base).status ≠ .completed := by
    rw [canceled]
    simp
  refine step_finishes inv found taken ⟨alone, ?_, armed, fun t apart => ?_, ?_,
    Or.inr (Or.inl canceled), Or.inr ⟨open_, done⟩⟩
    (fun l other there => no_adoptee_plain inv found plain there) ?_ ?_ ?_
  · rw [← awake, done]
    exact only
  · rw [tasks, State.setStatus, setTask_other _ _ _ apart]
  · rw [tasks, State.setStatus, setTask_self]
  · rintro rfl
    exact ⟨canceled.trans (unwound inv found).1.symm, done⟩
  · rintro ⟨token, rfl⟩ more
    rcases placed.2.2 with bad | ⟨bottom, -⟩
    · cases bad
    · cases bottom
      have below := token_below inv
      cases rest with
      | nil => exact absurd rfl more
      | cons entry deeper => cases below
  · rintro rfl _
    rcases placed.2.2 with bad | ⟨-, -, doomed⟩
    · cases bad
    · refine ⟨(live_base inv found ⟨none, rfl⟩).resolve_right fun unready => ?_, Or.inr doomed⟩
      have returning := unready.2.2.1
      rw [throws] at returning
      cases returning

theorem step_runtime_canceled (inv : Invariant s ((k, mode) :: rest))
    (found : s.contexts k = some context) (taken : runtimeFinish s k context = some s') {i : Nat}
    {which : Combinator} {children : List Nat} (point : context.point = .cancelLoop i 0 .runtime)
    (kind : (s.tasks context.inner).kind = .group which children)
    (ended : children[i]? = none) :
    Ended s s' k rest := by
  obtain ⟨-, count, rfl, alone⟩ := cancelLoop_ended inv found point kind ended
  obtain ⟨awake, calm⟩ := calm_of inv found (Or.inr (by simp [point]))
  have inner : context.inner = context.base := by
    unfold Context.inner
    rw [alone]
  refine step_finishes inv found taken ⟨alone, quiet_settled awake, fun t pending => ⟨pending, ?_⟩,
    fun _ _ => rfl, rfl, Or.inr (Or.inl (unwound inv found).1),
    Or.inr ⟨unended inv found (base_mem context), rfl⟩⟩
    (fun l other there => no_adoptee inv found kind (active_zero count.symm) there)
    (fun _ => ⟨rfl, rfl⟩) (by rintro ⟨token, bad⟩; cases bad) (by simp)
  rintro rfl
  rw [inner] at calm
  rw [calm] at pending
  cases pending

end Finish

section Loop

variable {s : State} {t : Nat}

theorem step_event (inv : Invariant s []) (pending : s.armed t = true) :
    ∃ k context, (s.tasks t).uid = some k ∧ s.contexts k = some context ∧
      Invariant { s with
        armed := Function.update s.armed t false
        exec := some k
        current := s.manager k } [(k, .live none)] := by
  obtain ⟨event, k, context, found, rfl, -, -⟩ := inv.armed t pending
  have sound := inv.sound k context found
  change Sound s k context .parked at sound
  obtain ⟨at_, point⟩ := placed_parked sound.placed
  refine ⟨k, context, (sound.owned _ (inner_mem context)).2, found, ?_⟩
  -- a combinator arms no event, so the task waits in a primitive
  have yields : at_ = .event := by
    have placed := sound.placed
    cases at_ with
    | event => rfl
    | wait count =>
        simp only [Placed, point] at placed
        obtain ⟨which, children, kind, -⟩ := placed
        rw [event] at kind
        cases kind
    | cancelWait unsupport caller =>
        simp only [Placed, point] at placed
        obtain ⟨-, -, -, children, kind, -⟩ := placed
        rw [event] at kind
        cases kind
  subst yields
  have parked {l : Nat} (apart : l ≠ k) : modeOf [(k, .live none)] l = modeOf [] l :=
    modeOf_tail _ _ apart
  have framed {l : Nat} {other : Context} (there : s.contexts l = some other) :
      Sound { s with
        armed := Function.update s.armed context.inner false
        exec := some k
        current := s.manager k } l other .parked := by
    have before := inv.sound l other there
    change Sound s l other .parked at before
    refine sound_frame before (fun _ _ => ⟨rfl, rfl⟩)
      (fun _ _ _ _ _ _ => ⟨rfl, rfl, Or.inl ⟨rfl, fun _ => rfl⟩⟩) ?_ rfl (Nat.le_refl _)
      (fun _ _ adopted => adopted) (fun doomed => doomed) (fun _ _ _ _ _ => rfl)
    obtain ⟨other_at, elsewhere⟩ := placed_parked before.placed
    simp [elsewhere]
  refine { nested := ⟨⟨context, found⟩, rfl⟩, exec := rfl, sound := ?sound, fresh := inv.fresh,
           unused := inv.unused, running := inv.running, bounded := inv.bounded, done := inv.done,
           past := inv.past, armed := ?armed, signal := ?signal, current := ?current }
  case sound =>
      intro l other there
      by_cases same : l = k
      · subst same
        change s.contexts l = some other at there
        rw [found] at there
        cases there
        rw [modeOf_head]
        have before := framed found
        refine { before with token := ?_, spent := fun _ _ => rfl, statuses := ?_, placed := ?_ }
        · exact before.token
        · have statuses := before.statuses
          unfold Statuses at statuses ⊢
          rw [if_neg (by simp)] at statuses ⊢
          intro x member
          rcases statuses x member with running | unready | flagged
          · exact Or.inl running
          · have returning := unready.2.2.1
            rw [point] at returning
            cases returning
          · exact Or.inr (Or.inr { flagged with token := rfl })
        · simp only [Placed, point]
          exact event
      · rw [parked same]
        exact framed there
  case armed =>
      intro x armed
      change Function.update s.armed context.inner false x = true at armed
      have apart : x ≠ context.inner := by
        rintro rfl
        rw [Function.update_self] at armed
        cases armed
      rw [Function.update_of_ne apart] at armed
      obtain ⟨kind, l, other, there, inner, place, unlive⟩ := inv.armed x armed
      refine ⟨kind, l, other, there, inner, place, ?_⟩
      have different : l ≠ k := by
        rintro rfl
        rw [found] at there
        cases there
        exact apart inner.symm
      rw [parked different]
      exact unlive
  case signal =>
      have quiet : ¬s.signal = true := by
        intro raised
        obtain ⟨l, other, below, yields, shape, -⟩ := inv.signal.mp raised
        cases shape
      refine iff_of_false quiet ?_
      rintro ⟨l, other, below, yields, shape, -⟩
      cases shape
  case current =>
      intro l other runs there
      cases runs
      change s.contexts k = some other at there
      rw [found] at there
      cases there
      exact ⟨context.base, base_mem context, sound.manager⟩

end Loop

end Cocoflow.SchedulerFinish
