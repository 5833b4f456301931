import Mathlib.Logic.Function.Basic
import Mathlib.Data.List.Basic
import Cocoflow.SchedulerSteps

/-!
The calls of `__await` and their two ends. They change the stack of tasks on the running
coroutine and hand its token on.
-/

namespace Cocoflow.SchedulerCalls

open LabelledRuns Scheduler SchedulerNest SchedulerLocal SchedulerSteps

/-- The end of a call of `__await`: the target is given up, and the parent takes back the
token. -/
structure Pops (s s' : State) (k : Nat) (context : Context) (mode : Mode) (frame : Frame)
    (outer : List Frame) (point : Point) : Prop where
  awaits : context.awaits = frame :: outer
  contexts : s'.contexts = Function.update s.contexts k
    (some { context with awaits := outer, point := point })
  exec : s'.exec = s.exec
  clock : s'.clock = s.clock
  manager : s'.manager = s.manager
  allocated : s'.next = s.next
  live : s'.live = s.live
  current : s'.current = some frame.parent
  signal : s'.signal = false
  armed : ∀ t, s'.armed t = true → s.armed t = true ∧ t ≠ context.inner
  tasks : ∀ t, t ≠ frame.target → t ≠ frame.parent → s'.tasks t = s.tasks t
  parent : s'.tasks frame.parent =
    { s.tasks frame.parent with reuse := none, blockTo := mode.token }
  kind : (s'.tasks frame.target).kind = (s.tasks frame.target).kind
  status : (s'.tasks frame.target).status ≠ .ready ∧ (s'.tasks frame.target).status ≠ .limited ∧
    (s'.tasks frame.target).status ≠ .running
  done : (s'.tasks frame.target).status = .completed ∧ s'.done = s.done ++ [frame.target] ∨
    (s'.tasks frame.target).status ≠ .completed ∧ s'.done = s.done
  onward : point = .user ∨ point = .throwing
  shelter : opened context.point = true →
    ∀ l other, s.contexts l = some other → (s.tasks other.base).finishTo ≠ some k

section Pop

variable {s s' : State} {k : Nat} {mode : Mode} {rest : Nest} {context : Context}
variable {frame : Frame} {outer : List Frame} {point : Point}

theorem popped_chain (point : Point) (awaits : context.awaits = frame :: outer) :
    context.inner = frame.target ∧ context.chain = frame.target ::
      ({ context with awaits := outer, point := point } : Context).chain := by
  unfold Context.inner Context.chain
  rw [awaits]
  exact ⟨rfl, rfl⟩

theorem popped_inner (point : Point) (sound : Sound s k context mode)
    (awaits : context.awaits = frame :: outer) :
    ({ context with awaits := outer, point := point } : Context).inner = frame.parent ∧
      ({ context with awaits := outer, point := point } : Context).chain =
        frame.parent :: outer.map Frame.parent := by
  have parents := sound.parents
  rw [(popped_chain point awaits).2, awaits] at parents
  have chain := chain_cons ({ context with awaits := outer, point := point } : Context)
  simp only [List.map_cons, List.tail_cons] at parents
  rw [← parents] at chain
  exact ⟨(List.cons.inj chain).1.symm, parents.symm⟩

theorem popped_absent (point : Point) (sound : Sound s k context mode)
    (awaits : context.awaits = frame :: outer) :
    frame.target ∉ ({ context with awaits := outer, point := point } : Context).chain := by
  have nodup := sound.nodup
  rw [(popped_chain point awaits).2] at nodup
  exact (List.nodup_cons.mp nodup).1

theorem pops_stays (inv : Invariant s ((k, mode) :: rest)) (found : s.contexts k = some context)
    (pops : Pops s s' k context mode frame outer point) :
    Stays s s' k context { context with awaits := outer, point := point } := by
  have sound := inv.sound k context found
  rw [modeOf_head] at sound
  have target : frame.target ∈ context.awaits.map Frame.target := by simp [pops.awaits]
  have inside : frame.parent ∈
      ({ context with awaits := outer, point := point } : Context).chain := by
    rw [(popped_inner point sound pops.awaits).2]
    simp
  refine { contexts := pops.contexts, base := rfl, stamp := rfl, clock := pops.clock,
           change := ?change, kind := ?kind, manager := fun l other _ => by rw [pops.manager],
           shelter := fun open_ => Or.inr (pops.shelter open_), done := ?done }
  case change =>
      intro t
      by_cases one : t = frame.target
      · subst one
        exact .target target
      · by_cases two : t = frame.parent
        · subst two
          rcases chain_cases inside with again | base
          · refine .target ?_
            rw [pops.awaits]
            exact List.mem_cons_of_mem _ again
          · refine .base base ?_ (by rw [pops.parent]) (by rw [pops.live])
            refine ⟨by rw [pops.parent], fun ready => ?_⟩
            have member : frame.parent ∈ context.chain := by
              rw [(popped_chain point pops.awaits).2]
              exact List.mem_cons_of_mem _ inside
            exact absurd ready (engaged_status inv found member).1
        · exact .same (pops.tasks t one two) (by rw [pops.live])
  case kind =>
      intro t _
      by_cases one : t = frame.target
      · subst one
        exact pops.kind
      · by_cases two : t = frame.parent
        · subst two
          rw [pops.parent]
        · rw [pops.tasks t one two]
  case done =>
      rcases pops.done with ⟨-, more⟩ | ⟨-, same⟩
      · exact ⟨[frame.target], more, by simpa using target⟩
      · exact ⟨[], by simp [same], by simp⟩

theorem pops_keeps (inv : Invariant s ((k, mode) :: rest)) (found : s.contexts k = some context)
    (pops : Pops s s' k context mode frame outer point) :
    Keeps s s' context { context with awaits := outer, point := point } := by
  have sound := inv.sound k context found
  rw [modeOf_head] at sound
  obtain ⟨inner, chain⟩ := popped_chain point pops.awaits
  have inside := (popped_inner point sound pops.awaits).2
  have target : frame.target ∈ context.chain := by simp [chain]
  have member : frame.parent ∈ context.chain := by simp [chain, inside]
  have parent_status : (s'.tasks frame.parent).status = (s.tasks frame.parent).status := by
    rw [pops.parent]
  have status (t : Nat) (apart : t ≠ frame.target) :
      (s'.tasks t).status = (s.tasks t).status := by
    by_cases two : t = frame.parent
    · rw [two, parent_status]
    · rw [pops.tasks t apart two]
  refine { exec := pops.exec, manager := pops.manager, allocated := pops.allocated,
           live := fun t live => by rwa [pops.live] at live, unstarted := ?unstarted,
           running := ?running, completed := ?completed, ended := ?ended, recorded := ?recorded,
           armed := ?armed, signal := pops.signal, moves := ?moves, current := ?current }
  case unstarted =>
      intro t live unstarted
      have one : t ≠ frame.target := by
        rintro rfl
        rcases unstarted with ready | limited
        · exact pops.status.1 ready
        · exact pops.status.2.1 limited
      have two : t ≠ frame.parent := by
        rintro rfl
        rw [parent_status] at unstarted
        obtain ⟨unready, unlimited⟩ := engaged_status inv found member
        rcases unstarted with ready | limited
        · exact unready ready
        · exact unlimited limited
      rw [pops.tasks t one two]
      exact ⟨rfl, rfl, rfl, rfl⟩
  case running =>
      intro t live running
      have one : t ≠ frame.target := by
        rintro rfl
        exact pops.status.2.2 running
      by_cases engaged : t ∈ context.chain
      · rw [chain] at engaged
        exact Or.inl ((List.mem_cons.mp engaged).resolve_left one)
      · rw [status t one] at running
        exact Or.inr ⟨running, engaged⟩
  case completed =>
      intro t completed
      by_cases one : t = frame.target
      · subst one
        exact absurd completed (unended inv found target)
      · rw [status t one]
        exact completed
  case ended =>
      intro t ended
      rcases pops.done with ⟨completed, more⟩ | ⟨-, same⟩
      · rw [more] at ended
        rcases List.mem_append.mp ended with old | last
        · exact Or.inl old
        · cases List.mem_singleton.mp last
          exact Or.inr ⟨completed, (sound.owned _ target).1⟩
      · exact Or.inl (same ▸ ended)
  case recorded =>
      intro t completed
      by_cases one : t = frame.target
      · subst one
        rcases pops.done with ⟨-, more⟩ | ⟨open_, -⟩
        · exact Or.inr (by simp [more])
        · exact absurd completed open_
      · rw [status t one] at completed
        exact Or.inl completed
  case armed =>
      intro t armed
      obtain ⟨before, apart⟩ := pops.armed t armed
      exact ⟨before, fun same => absurd same.symm apart⟩
  case moves =>
      rcases pops.onward with rfl | rfl <;> simp
  case current =>
      exact ⟨frame.parent, by simp [inside], pops.current⟩

theorem pops_statuses (inv : Invariant s ((k, mode) :: rest))
    (found : s.contexts k = some context) (pops : Pops s s' k context mode frame outer point) :
    Statuses s' { context with awaits := outer, point := point } mode := by
  have sound := inv.sound k context found
  rw [modeOf_head] at sound
  have statuses := sound.statuses
  have absent := popped_absent point sound pops.awaits
  obtain ⟨inner, chain⟩ := popped_chain point pops.awaits
  have below {t : Nat} (member :
      t ∈ ({ context with awaits := outer, point := point } : Context).chain) :
      t ∈ context.chain := by
    rw [chain]
    exact List.mem_cons_of_mem _ member
  have kept {t : Nat} (member :
      t ∈ ({ context with awaits := outer, point := point } : Context).chain) :
      (s'.tasks t).status = (s.tasks t).status ∧
        (s'.tasks t).uninterruptable = (s.tasks t).uninterruptable ∧
        (s'.tasks t).finishTo = (s.tasks t).finishTo := by
    have one : t ≠ frame.target := fun same => absent (same ▸ member)
    by_cases two : t = frame.parent
    · subst two
      rw [pops.parent]
      exact ⟨rfl, rfl, rfl⟩
    · rw [pops.tasks t one two]
      exact ⟨rfl, rfl, rfl⟩
  have base : context.base ∈
      ({ context with awaits := outer, point := point } : Context).chain := base_mem _
  have onward (at_ : YieldAt) : point ≠ .yielded at_ := by
    rcases pops.onward with rfl | rfl <;> simp
  have doomed : Doomed s context →
      Doomed s' { context with awaits := outer, point := point } :=
    doomed_stays inv found (fun q apart => by rw [pops.contexts, Function.update_of_ne apart]) rfl
      (kept base).2.2
  unfold Statuses at statuses ⊢
  split
  · rename_i cancelling
    rw [if_pos cancelling] at statuses
    refine ⟨(kept base).1.trans statuses.1, fun t member => ?_⟩
    rw [(kept member).1, (kept member).2.1]
    obtain ⟨unprotected, running | ⟨canceled, -⟩⟩ := statuses.2 t (below member)
    · exact ⟨unprotected, Or.inl running⟩
    · exact ⟨unprotected, Or.inr ⟨canceled, fun at_ same => absurd same (onward at_)⟩⟩
  · rename_i uncancelled
    rw [if_neg uncancelled] at statuses
    intro t member
    have one : t ≠ frame.target := fun same => absent (same ▸ member)
    rcases statuses t (below member) with running | unready | flagged
    · exact Or.inl ((kept member).1.trans running)
    · exact absurd (unready.2.1.trans inner) one
    · obtain ⟨status, protect, token, sheltered, inside, outside, split, more, open_⟩ := flagged
      -- The target of the call is the first of the chain, so it is inside the flagged task.
      rw [chain] at split
      cases inside with
      | nil => exact absurd (List.cons.inj split).1.symm one
      | cons first others =>
          obtain ⟨-, split⟩ := List.cons.inj split
          refine Or.inr (Or.inr ⟨(kept member).1.trans status, (kept member).2.1.trans protect,
            token, doomed sheltered, others, outside, split, more, fun other later => ?_⟩)
          rw [(kept (by rw [split]; simp [later])).2.1]
          exact open_ other later

theorem pops_sound (inv : Invariant s ((k, mode) :: rest)) (found : s.contexts k = some context)
    (pops : Pops s s' k context mode frame outer point)
    (placed : Placed s' k { context with awaits := outer, point := point } mode) :
    Sound s' k { context with awaits := outer, point := point } mode := by
  have sound := inv.sound k context found
  rw [modeOf_head] at sound
  obtain ⟨first, callers⟩ := popped_inner point sound pops.awaits
  have absent := popped_absent point sound pops.awaits
  obtain ⟨inner, chain⟩ := popped_chain point pops.awaits
  have nodup := sound.nodup
  rw [chain] at nodup
  have inside := (List.nodup_cons.mp nodup).2
  have below {t : Nat} (member :
      t ∈ ({ context with awaits := outer, point := point } : Context).chain) :
      t ∈ context.chain := by
    rw [chain]
    exact List.mem_cons_of_mem _ member
  have further {t : Nat} (member :
      t ∈ ({ context with awaits := outer, point := point } : Context).chain)
      (other : t ≠ frame.parent) : s'.tasks t = s.tasks t :=
    pops.tasks t (fun same => absent (same ▸ member)) other
  -- Everything but `reuse` and `block_to` is as before on the remaining stack.
  have fields {t : Nat} (member :
      t ∈ ({ context with awaits := outer, point := point } : Context).chain) :
      (s'.tasks t).kind = (s.tasks t).kind ∧ (s'.tasks t).uid = (s.tasks t).uid ∧
        (s'.tasks t).finishTo = (s.tasks t).finishTo := by
    by_cases two : t = frame.parent
    · subst two
      rw [pops.parent]
      exact ⟨rfl, rfl, rfl⟩
    · rw [further member two]
      exact ⟨rfl, rfl, rfl⟩
  have later {t : Nat} (member : t ∈ outer.map Frame.parent) :
      t ≠ frame.parent ∧
        t ∈ ({ context with awaits := outer, point := point } : Context).chain := by
    rw [callers] at inside ⊢
    exact ⟨fun same => (List.nodup_cons.mp inside).1 (same ▸ member), List.mem_cons_of_mem _ member⟩
  refine { owned := ?owned, nodup := inside, manager := by rw [pops.manager]; exact sound.manager,
           stamp := by rw [pops.clock]; exact sound.stamp, mirrors := ?mirrors, parents := ?parents,
           outer := ?outer, awaited := ?awaited, token := ?token, spent := ?spent,
           adopted := ?adopted, statuses := pops_statuses inv found pops, placed := placed }
  case owned =>
      intro t member
      rw [pops.live, (fields member).2.1]
      exact sound.owned t (below member)
  case mirrors =>
      have mirrors := sound.mirrors
      rw [chain, callers] at mirrors
      rw [callers]
      refine ⟨by rw [pops.parent], mirrors_congr (fun t member => ?_) mirrors.2.2⟩
      rw [further (later member).2 (later member).1]
  case parents =>
      rw [callers]
      rfl
  case outer =>
      intro t member
      rw [callers, List.tail_cons] at member
      rw [further (later member).2 (later member).1]
      refine sound.outer t ?_
      rw [chain, List.tail_cons, callers]
      exact List.mem_cons_of_mem _ member
  case awaited =>
      intro t member
      have inside : t ∈ ({ context with awaits := outer, point := point } : Context).chain := by
        simp only [Context.chain, List.mem_append]
        exact Or.inl member
      rw [(fields inside).2.2]
      refine sound.awaited t ?_
      rw [pops.awaits]
      exact List.mem_cons_of_mem _ member
  case token =>
      rw [first, pops.parent]
  case spent =>
      intro at_ yields
      change point = .yielded at_ at yields
      rcases pops.onward with rfl | rfl <;> cases yields
  case adopted =>
      intro q finish
      rw [(fields (base_mem _)).2.2] at finish
      obtain ⟨holder, which, children, there, kind, open_, earlier, member⟩ :=
        sound.adopted q finish
      have apart : q ≠ k := parent_apart inv found finish
      have live := ((inv.sound q holder there).owned _ (inner_mem holder)).1
      refine ⟨holder, which, children, ?_, ((pops_stays inv found pops).kind _ live).trans kind,
        open_, earlier, member⟩
      rw [pops.contexts, Function.update_of_ne apart]
      exact there

-- The rule for the end of a call of `__await`.
theorem inv_pops (inv : Invariant s ((k, mode) :: rest)) (found : s.contexts k = some context)
    (pops : Pops s s' k context mode frame outer point)
    (placed : Placed s' k { context with awaits := outer, point := point } mode) :
    Invariant s' ((k, mode) :: rest) :=
  inv_stays inv found (pops_stays inv found pops) (pops_keeps inv found pops)
    (pops_sound inv found pops placed)

theorem caller_facts (sound : Sound s k context mode) (awaits : context.awaits = frame :: outer) :
    frame.parent ≠ frame.target ∧ (s.tasks frame.parent).kind = .user ∧
      (s.tasks frame.parent).blockTo = none := by
  have callers := (popped_inner .user sound awaits).2
  have absent := popped_absent .user sound awaits
  have chain := (popped_chain .user awaits).2
  refine ⟨?_, sound.outer frame.parent ?_⟩
  · intro same
    rw [callers, same] at absent
    exact absent (by simp)
  · rw [chain, List.tail_cons, callers]
    simp

theorem pops_throwing (inv : Invariant s ((k, mode) :: rest)) (found : s.contexts k = some context)
    (pops : Pops s s' k context mode frame outer .throwing)
    (unprotected : ∀ t ∈ ({ context with awaits := outer, point := .throwing } : Context).chain,
      (s.tasks t).uninterruptable = false)
    (way : mode = .cancelling ∨ mode = .live none ∧ Doomed s context) :
    Placed s' k { context with awaits := outer, point := .throwing } mode := by
  have sound := inv.sound k context found
  rw [modeOf_head] at sound
  have absent := popped_absent .throwing sound pops.awaits
  obtain ⟨first, callers⟩ := popped_inner .throwing sound pops.awaits
  have user : (s'.tasks frame.parent).kind = .user := by
    rw [pops.parent]
    exact (caller_facts sound pops.awaits).2.1
  refine ⟨fun t member => ?_, fun which children group => ?_, ?_⟩
  · have before := unprotected t member
    by_cases two : t = frame.parent
    · subst two
      rw [pops.parent]
      exact before
    · rw [pops.tasks t (fun same => absent (same ▸ member)) two]
      exact before
  · rw [first, user] at group
    cases group
  · rcases way with cancelling | ⟨live, doomed⟩
    · exact Or.inl cancelling
    · refine Or.inr ⟨live, by rw [first]; exact user, ?_⟩
      refine doomed_stays inv found (fun q apart => ?_) rfl ?_ doomed
      · rw [pops.contexts, Function.update_of_ne apart]
      · have inside : context.base ∈
            ({ context with awaits := outer, point := .throwing } : Context).chain := base_mem _
        by_cases two : context.base = frame.parent
        · rw [two, pops.parent]
        · rw [pops.tasks _ (fun same => absent (same ▸ inside)) two]

theorem awaitReturn_spec (s : State) (k : Nat) (context : Context) (outer : List Frame)
    (apart : frame.parent ≠ frame.target) :
    awaitReturn s k context frame outer =
      { s with
        tasks := Function.update (Function.update s.tasks frame.target
          { s.tasks frame.target with
            uid := none
            blockTo := none
            status := if (s.tasks frame.target).status = .running ∨
                (s.tasks frame.target).status = .canceled then .completed
              else (s.tasks frame.target).status }) frame.parent
          { s.tasks frame.parent with
            reuse := none
            blockTo := if (s.tasks frame.target).blockTo ≠ none then
                (s.tasks frame.target).blockTo
              else (s.tasks frame.parent).blockTo }
        done := if (s.tasks frame.target).status = .running ∨
            (s.tasks frame.target).status = .canceled then s.done ++ [frame.target] else s.done
        current := some frame.parent
        contexts := Function.update s.contexts k (some
          { context with
            awaits := outer
            point := if (s.tasks frame.target).status = .canceled then .throwing else .user }) } := by
  by_cases ended : (s.tasks frame.target).status = .running ∨
    (s.tasks frame.target).status = .canceled
  · simp [awaitReturn, ended, State.complete, State.setStatus, State.setTask, State.setContext, apart]
  · simp [awaitReturn, ended, State.setTask, State.setContext, apart]

theorem step_await_returns (inv : Invariant s ((k, mode) :: rest))
    (found : s.contexts k = some context) (returns : context.point = .returning)
    (awaits : context.awaits = frame :: outer) :
    Invariant (awaitReturn s k context frame outer) ((k, mode) :: rest) := by
  have sound := inv.sound k context found
  rw [modeOf_head] at sound
  have placed := sound.placed
  simp only [Placed, returns] at placed
  have live : mode.Live := by
    rcases placed with live | ⟨-, alone⟩
    · exact live
    · rw [awaits] at alone
      cases alone
  obtain ⟨awake, calm⟩ := calm_of inv found (Or.inl live)
  obtain ⟨apart, user, untoken⟩ := caller_facts sound awaits
  obtain ⟨inner, chain⟩ := popped_chain .user awaits
  have token := sound.token
  rw [inner] at token
  have statuses := sound.statuses
  unfold Statuses at statuses
  rw [if_neg (by obtain ⟨token, rfl⟩ := live; simp)] at statuses
  have target : frame.target ∈ context.chain := by simp [chain]
  have way : (s.tasks frame.target).status = .canceled ∧ Flagged s context mode frame.target ∨
      ((s.tasks frame.target).status = .running ∨
        (s.tasks frame.target).status = .childUnready) := by
    rcases statuses _ target with running | unready | flagged
    · exact Or.inr (Or.inl running)
    · exact Or.inr (Or.inr unready.1)
    · exact Or.inl ⟨flagged.status, flagged⟩
  have pops : Pops s (awaitReturn s k context frame outer) k context mode frame outer
      (if (s.tasks frame.target).status = .canceled then .throwing else .user) := by
    rw [awaitReturn_spec s k context outer apart]
    refine { awaits := awaits, contexts := rfl, exec := rfl, clock := rfl, manager := rfl,
             allocated := rfl, live := rfl, current := rfl, signal := awake, armed := ?armed,
             tasks := ?tasks, parent := ?parent, kind := ?kind, status := ?status, done := ?done,
             onward := ?onward, shelter := ?shelter }
    case armed =>
        intro t armed
        refine ⟨armed, ?_⟩
        rintro rfl
        change s.armed context.inner = true at armed
        rw [calm] at armed
        cases armed
    case tasks =>
        intro t one two
        dsimp only
        rw [Function.update_of_ne two, Function.update_of_ne one]
    case parent =>
        dsimp only
        rw [Function.update_self, token, untoken]
        cases mode.token <;> simp
    case kind =>
        dsimp only
        rw [Function.update_of_ne apart.symm, Function.update_self]
    case status =>
        dsimp only
        rw [Function.update_of_ne apart.symm, Function.update_self]
        rcases way with ⟨canceled, -⟩ | running | unready
        · simp [canceled]
        · simp [running]
        · simp [unready]
    case done =>
        dsimp only
        rw [Function.update_of_ne apart.symm, Function.update_self]
        rcases way with ⟨canceled, -⟩ | running | unready
        · simp [canceled]
        · simp [running]
        · simp [unready]
    case onward =>
        split
        · exact Or.inr rfl
        · exact Or.inl rfl
    case shelter =>
        simp [returns, opened]
  by_cases canceled : (s.tasks frame.target).status = .canceled
  · rw [if_pos canceled] at pops
    have flagged : Flagged s context mode frame.target := by
      rcases way with ⟨-, flagged⟩ | running | unready
      · exact flagged
      · rw [canceled] at running
        cases running
      · rw [canceled] at unready
        cases unready
    refine inv_pops inv found pops (pops_throwing inv found pops ?_ ?_)
    · obtain ⟨inside, outside, split, -, open_⟩ := flagged.outside
      rw [(popped_chain .throwing awaits).2] at split
      cases inside with
      | nil =>
          obtain ⟨-, rfl⟩ := List.cons.inj split
          exact open_
      | cons first others =>
          obtain ⟨-, again⟩ := List.cons.inj split
          have absent := popped_absent .throwing sound awaits
          rw [again] at absent
          simp at absent
    · obtain ⟨token, rfl⟩ := live
      exact Or.inr ⟨congrArg Mode.live flagged.token, flagged.doomed⟩
  · rw [if_neg canceled] at pops
    refine inv_pops inv found pops ⟨live, ?_⟩
    rw [(popped_inner .user sound awaits).1, pops.parent]
    exact user

theorem step_await_rethrows (inv : Invariant s ((k, mode) :: rest))
    (found : s.contexts k = some context) (awaits : context.awaits = frame :: outer)
    {handled : State} (only : handled = { s with tasks := handled.tasks, armed := handled.armed })
    (tasks : handled.tasks = (s.setStatus context.inner .canceled).tasks)
    (armed : ∀ t, handled.armed t = true → s.armed t = true ∧ t ≠ context.inner)
    (awake : s.signal = false)
    (shelter : opened context.point = true →
      ∀ l other, s.contexts l = some other → (s.tasks other.base).finishTo ≠ some k)
    (unprotected : ∀ t ∈ context.chain, (s.tasks t).uninterruptable = false)
    (way : mode = .cancelling ∨ mode = .live none ∧ Doomed s context) :
    Invariant (awaitRethrow handled k context frame outer) ((k, mode) :: rest) := by
  have sound := inv.sound k context found
  rw [modeOf_head] at sound
  obtain ⟨apart, user, untoken⟩ := caller_facts sound awaits
  obtain ⟨inner, chain⟩ := popped_chain .throwing awaits
  have token : mode.token = none := by
    rcases way with rfl | ⟨rfl, -⟩ <;> rfl
  rw [inner, State.setStatus] at tasks
  have written (t : Nat) (one : t ≠ frame.target) : handled.tasks t = s.tasks t := by
    rw [tasks, setTask_other _ _ _ one]
  have pops : Pops s (awaitRethrow handled k context frame outer) k context mode frame outer
      .throwing := by
    refine { awaits := awaits, contexts := by rw [only]; rfl, exec := by rw [only]; rfl,
             clock := by rw [only]; rfl, manager := by rw [only]; rfl,
             allocated := by rw [only]; rfl, live := by rw [only]; rfl, current := rfl,
             signal := by rw [only]; exact awake, armed := armed, tasks := ?tasks,
             parent := ?parent, kind := ?kind, status := ?stopped, done := ?done,
             onward := Or.inr rfl, shelter := shelter }
    case tasks =>
        intro t one two
        simp [awaitRethrow, State.setContext, State.setTask, one, two, written t one]
    case parent =>
        simp [awaitRethrow, State.setContext, State.setTask, apart, written _ apart, token, untoken]
    case kind =>
        simp [awaitRethrow, State.setContext, State.setTask, apart.symm, tasks]
    case stopped =>
        simp [awaitRethrow, State.setContext, State.setTask, apart.symm, tasks]
    case done =>
        right
        rw [only]
        simp [awaitRethrow, State.setContext, State.setTask, apart.symm, tasks]
  refine inv_pops inv found pops (pops_throwing inv found pops (fun t member => ?_) way)
  refine unprotected t ?_
  rw [chain]
  exact List.mem_cons_of_mem _ member

end Pop

section Push

variable {s : State} {k target : Nat} {mode : Mode} {rest : Nest} {context : Context}

def called (context : Context) (target : Nat) : Context :=
  { context with
    awaits := { parent := context.inner, target := target } :: context.awaits
    point := .enter }

theorem called_chain (context : Context) (target : Nat) :
    (called context target).inner = target ∧
      (called context target).chain = target :: context.chain := ⟨rfl, rfl⟩

def calls (s : State) (k : Nat) (context : Context) (target : Nat) : State :=
  { s with
    tasks := Function.update (Function.update s.tasks target
      { s.tasks target with
        blockTo := (s.tasks context.inner).blockTo
        finishTo := (s.tasks context.inner).uid
        uid := (s.tasks context.inner).uid
        status := .running }) context.inner
      { s.tasks context.inner with blockTo := none, reuse := some target }
    current := some target
    contexts := Function.update s.contexts k (some (called context target)) }

theorem await_accepts (current : s.current = some context.inner)
    (apart : context.inner ≠ target) (live : s.live target = true)
    (unstarted : (s.tasks target).status = .ready ∨ (s.tasks target).status = .limited) :
    await s k context target = some (calls s k context target) := by
  have accepted : ¬((s.tasks target).status ≠ .ready ∧ (s.tasks target).status ≠ .limited) := by
    rintro ⟨unready, unlimited⟩
    rcases unstarted with ready | limited
    · exact unready ready
    · exact unlimited limited
  simp only [await, live, current, accepted]
  simp [calls, called, State.setTask, State.setContext, apart]

theorem calls_target (apart : context.inner ≠ target) :
    (calls s k context target).tasks target =
      { s.tasks target with
        blockTo := (s.tasks context.inner).blockTo
        finishTo := (s.tasks context.inner).uid
        uid := (s.tasks context.inner).uid
        status := .running } := by
  simp [calls, apart.symm]

theorem calls_inner : (calls s k context target).tasks context.inner =
    { s.tasks context.inner with blockTo := none, reuse := some target } := by
  simp [calls]

theorem calls_other {t : Nat} (one : t ≠ target) (two : t ≠ context.inner) :
    (calls s k context target).tasks t = s.tasks t := by
  simp [calls, one, two]

theorem calls_stays (inv : Invariant s ((k, mode) :: rest)) (found : s.contexts k = some context)
    (user : context.point = .user) (alone : Idle s target) (unclaimed : Unclaimed s target) :
    Stays s (calls s k context target) k context (called context target) := by
  have apart : context.inner ≠ target := by
    rintro rfl
    exact alone k context found (inner_mem context)
  refine { contexts := rfl, base := rfl, stamp := rfl, clock := rfl, change := ?change,
           kind := ?kind, manager := fun _ _ _ => rfl, shelter := by simp [user, opened],
           done := ⟨[], by simp [calls], by simp⟩ }
  case change =>
      intro t
      by_cases one : t = target
      · subst one
        exact .idle alone (Or.inl unclaimed)
      · by_cases two : t = context.inner
        · subst two
          rcases inner_base_or_target context with ⟨-, base⟩ | member
          · refine .base base ⟨by rw [calls_inner], fun ready => ?_⟩ (by rw [calls_inner]) rfl
            exact absurd ready (engaged_status inv found (inner_mem context)).1
          · exact .target member
        · exact .same (calls_other one two) rfl
  case kind =>
      intro t _
      by_cases one : t = target
      · subst one
        rw [calls_target apart]
      · by_cases two : t = context.inner
        · subst two
          rw [calls_inner]
        · rw [calls_other one two]

theorem calls_keeps (inv : Invariant s ((k, mode) :: rest)) (found : s.contexts k = some context)
    (live : mode.Live) (alone : Idle s target)
    (unstarted : (s.tasks target).status = .ready ∨ (s.tasks target).status = .limited) :
    Keeps s (calls s k context target) context (called context target) := by
  obtain ⟨awake, calm⟩ := calm_of inv found (Or.inl live)
  have apart : context.inner ≠ target := by
    rintro rfl
    exact alone k context found (inner_mem context)
  have status (t : Nat) (one : t ≠ target) :
      ((calls s k context target).tasks t).status = (s.tasks t).status := by
    by_cases two : t = context.inner
    · rw [two, calls_inner]
    · rw [calls_other one two]
  have running : ((calls s k context target).tasks target).status = .running := by
    rw [calls_target apart]
  refine { exec := rfl, manager := rfl, allocated := rfl, live := fun _ live => live,
           unstarted := ?unstarted, running := ?running, completed := ?completed,
           ended := fun _ member => Or.inl member, recorded := ?recorded, armed := ?armed,
           signal := awake, moves := by simp [called],
           current := ⟨target, by simp [(called_chain context target).2], rfl⟩ }
  case unstarted =>
      intro t _ unstarted
      have one : t ≠ target := by
        rintro rfl
        simp [running] at unstarted
      have two : t ≠ context.inner := by
        rintro rfl
        rw [status _ one] at unstarted
        obtain ⟨unready, unlimited⟩ := engaged_status inv found (inner_mem context)
        rcases unstarted with ready | limited
        · exact unready ready
        · exact unlimited limited
      rw [calls_other one two]
      exact ⟨rfl, rfl, rfl, rfl⟩
  case running =>
      intro t _ runs
      rw [(called_chain context target).2]
      by_cases one : t = target
      · exact Or.inl (by simp [one])
      · by_cases member : t ∈ context.chain
        · exact Or.inl (List.mem_cons_of_mem _ member)
        · rw [status t one] at runs
          exact Or.inr ⟨runs, member⟩
  case completed =>
      intro t completed
      have one : t ≠ target := by
        rintro rfl
        simp [completed] at unstarted
      rw [status t one]
      exact completed
  case recorded =>
      intro t completed
      have one : t ≠ target := by
        rintro rfl
        simp [running] at completed
      rw [status t one] at completed
      exact Or.inl completed
  case armed =>
      intro t armed
      refine ⟨armed, fun same => ?_⟩
      subst same
      change s.armed context.inner = true at armed
      rw [calm] at armed
      cases armed

theorem calls_statuses (inv : Invariant s ((k, mode) :: rest))
    (found : s.contexts k = some context) (user : context.point = .user) (live : mode.Live)
    (alone : Idle s target) :
    Statuses (calls s k context target) (called context target) mode := by
  have sound := inv.sound k context found
  rw [modeOf_head] at sound
  have apart : context.inner ≠ target := by
    rintro rfl
    exact alone k context found (inner_mem context)
  have kept {t : Nat} (member : t ∈ context.chain) :
      ((calls s k context target).tasks t).status = (s.tasks t).status ∧
        ((calls s k context target).tasks t).uninterruptable = (s.tasks t).uninterruptable ∧
        ((calls s k context target).tasks t).finishTo = (s.tasks t).finishTo := by
    have one : t ≠ target := fun same => alone k context found (same ▸ member)
    by_cases two : t = context.inner
    · rw [two, calls_inner]
      exact ⟨rfl, rfl, rfl⟩
    · rw [calls_other one two]
      exact ⟨rfl, rfl, rfl⟩
  have doomed : Doomed s context → Doomed (calls s k context target) (called context target) :=
    doomed_stays inv found (fun q different => Function.update_of_ne different _ _) rfl
      (kept (base_mem context)).2.2
  have uncancelled : mode ≠ .cancelling := by
    obtain ⟨token, rfl⟩ := live
    simp
  have statuses := sound.statuses
  unfold Statuses at statuses ⊢
  rw [if_neg uncancelled] at statuses ⊢
  intro t member
  rcases List.mem_cons.mp member with rfl | inside
  · exact Or.inl (by rw [calls_target apart])
  · rcases statuses t inside with running | unready | flagged
    · exact Or.inl ((kept inside).1.trans running)
    · have returning := unready.2.2.1
      rw [user] at returning
      cases returning
    · obtain ⟨status, protect, token, sheltered, before, outside, split, more, open_⟩ := flagged
      refine Or.inr (Or.inr ⟨(kept inside).1.trans status, (kept inside).2.1.trans protect, token,
        doomed sheltered, target :: before, outside, ?_, more, fun other later => ?_⟩)
      · rw [(called_chain context target).2, split]
        rfl
      · rw [(kept (by rw [split]; simp [later])).2.1]
        exact open_ other later

theorem step_await_calls (inv : Invariant s ((k, mode) :: rest))
    (found : s.contexts k = some context) (user : context.point = .user)
    (allocated : s.live target = true)
    (unstarted : (s.tasks target).status = .ready ∨ (s.tasks target).status = .limited)
    (alone : Idle s target) (unclaimed : Unclaimed s target) :
    Invariant (calls s k context target) ((k, mode) :: rest) := by
  have sound := inv.sound k context found
  rw [modeOf_head] at sound
  have placed := sound.placed
  simp only [Placed, user] at placed
  obtain ⟨live, kind⟩ := placed
  have stays := calls_stays inv found user alone unclaimed
  have absent : target ∉ context.chain := alone k context found
  have apart : context.inner ≠ target := fun same => absent (same ▸ inner_mem context)
  obtain ⟨inner, chain⟩ := called_chain context target
  have owner := (sound.owned _ (inner_mem context)).2
  have nodup : (context.inner :: context.chain.tail).Nodup := by
    rw [← chain_cons]
    exact sound.nodup
  have further {t : Nat} (member : t ∈ context.chain.tail) :
      (calls s k context target).tasks t = s.tasks t := by
    refine calls_other ?_ ?_
    · rintro rfl
      exact absent (List.mem_of_mem_tail member)
    · rintro rfl
      exact (List.nodup_cons.mp nodup).1 member
  refine inv_stays inv found stays (calls_keeps inv found live alone unstarted)
    ⟨?_, ?_, sound.manager, sound.stamp, ?_, ?_, ?_, ?_, ?_, by simp [called], ?_,
      calls_statuses inv found user live alone, live, ?_, by simp [called]⟩
  · intro t member
    rw [chain] at member
    rcases List.mem_cons.mp member with rfl | inside
    · rw [calls_target apart]
      exact ⟨allocated, owner⟩
    · refine ⟨(sound.owned t inside).1, ?_⟩
      by_cases two : t = context.inner
      · rw [two, calls_inner]
        exact owner
      · rw [calls_other (fun same : t = target => absent (same ▸ inside)) two]
        exact (sound.owned t inside).2
  · rw [chain]
    exact List.nodup_cons.mpr ⟨absent, sound.nodup⟩
  · rw [chain, chain_cons context]
    have mirrors := sound.mirrors
    rw [chain_cons context] at mirrors
    refine ⟨?_, by rw [calls_inner], mirrors_congr (fun t member => ?_) mirrors.2⟩
    · rw [calls_target apart]
      exact (inv.unused target allocated unstarted).1
    · rw [further member]
  · rw [chain, List.tail_cons, chain_cons context, ← sound.parents]
    rfl
  · intro t member
    rw [chain, List.tail_cons, chain_cons context] at member
    rcases List.mem_cons.mp member with rfl | later
    · rw [calls_inner]
      exact ⟨kind, rfl⟩
    · rw [further later]
      exact sound.outer t later
  · intro t member
    rcases List.mem_cons.mp member with rfl | inside
    · rw [calls_target apart]
      exact owner
    · have engaged : t ∈ context.chain := by simp [Context.chain, inside]
      by_cases two : t = context.inner
      · subst two
        rw [calls_inner]
        exact sound.awaited _ inside
      · rw [calls_other (fun same : t = target => absent (same ▸ engaged)) two]
        exact sound.awaited t inside
  · rw [inner, calls_target apart]
    exact sound.token
  · intro q reports
    have finish : (s.tasks context.base).finishTo = some q :=
      (base_finish inv found stays found).symm.trans reports
    obtain ⟨holder, which, children, there, group, open_, earlier, member⟩ :=
      sound.adopted q finish
    have elsewhere : q ≠ k := parent_apart inv found finish
    have alive := ((inv.sound q holder there).owned _ (inner_mem holder)).1
    exact ⟨holder, which, children, (Function.update_of_ne elsewhere _ _).trans there,
      (stays.kind _ alive).trans group, open_, earlier, member⟩
  · rw [inner, calls_target apart]
    exact (inv.unused target allocated unstarted).2

end Push

end Cocoflow.SchedulerCalls
