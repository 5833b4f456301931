import Mathlib.Logic.Function.Basic
import Mathlib.Data.List.Basic
import Cocoflow.LabelledRuns
import Cocoflow.PointUpdates
import Cocoflow.Scheduler

/-!
The shape of a scheduler state in which control is properly nested. The running coroutine
stands on a stack of coroutines, each of which waits inside `swap_running` for the one above
it: in `start`, in the start loop of a combinator, or in the cancel loop of a combinator. All
other coroutines are parked in `__task_yield`. A child of a combinator reports to the
coroutine of that combinator, which is open, and the counters of `all_of`, `any_of` and
`__task_cancel_children` say how many of its children are still to report.
-/

namespace Cocoflow.SchedulerNest

open LabelledRuns Scheduler

/-- A parked coroutine waits in a yield. A live one runs, or waits below another one; its
token is the coroutine to which its first yield returns. A cancelling one is unwound on
behalf of the coroutine below it. -/
inductive Mode where
  | parked
  | live (token : Option Nat)
  | cancelling
  deriving DecidableEq

namespace Mode

def token : Mode → Option Nat
  | .live token => token
  | _ => none

def Live (mode : Mode) : Prop := ∃ token, mode = .live token

end Mode

abbrev Nest := List (Nat × Mode)

def modeOf : Nest → Nat → Mode
  | [], _ => .parked
  | (k, mode) :: rest, id => if id = k then mode else modeOf rest id

def opened : Point → Bool
  | .starting _ _ | .started _ _ | .waiting _ | .throwing => true
  | .cancelLoop _ _ _ | .canceling _ _ _ | .cancelWait _ _ => true
  | .yielded (.wait _) | .yielded (.cancelWait _ _) => true
  | _ => false

def cancels : Point → Bool
  | .cancelLoop _ _ _ | .canceling _ _ _ | .cancelWait _ _ => true
  | .yielded (.cancelWait _ _) => true
  | _ => false

/-- `reuse` leads from every task of a chain to the one it awaits. -/
def Mirrors (s : State) : Option Nat → List Nat → Prop
  | _, [] => True
  | inside, t :: outer => (s.tasks t).reuse = inside ∧ Mirrors s (some t) outer

/-- The task at the bottom of a coroutine is a child of an open combinator, whose coroutine
was taken into use earlier. -/
def Adopted (s : State) (q : Nat) (context : Context) : Prop :=
  ∃ parent which children, s.contexts q = some parent ∧
    (s.tasks parent.inner).kind = .group which children ∧ opened parent.point = true ∧
    parent.stamp < context.stamp ∧ context.base ∈ children

/-- The combinator to which a coroutine reports waits only for its uninterruptable
children. -/
def Doomed (s : State) (context : Context) : Prop :=
  ∃ q parent, (s.tasks context.base).finishTo = some q ∧ s.contexts q = some parent ∧
    cancels parent.point = true

/-- An uninterruptable task that is left to finish; nothing outside it is protected. -/
structure Flagged (s : State) (context : Context) (mode : Mode) (t : Nat) : Prop where
  status : (s.tasks t).status = .canceled
  uninterruptable : (s.tasks t).uninterruptable = true
  token : mode.token = none
  doomed : Doomed s context
  outside : ∃ inside outer, context.chain = inside ++ t :: outer ∧ outer ≠ [] ∧
    ∀ other ∈ outer, (s.tasks other).uninterruptable = false

def Unready (s : State) (context : Context) (mode : Mode) (t : Nat) : Prop :=
  (s.tasks t).status = .childUnready ∧ t = context.inner ∧ context.point = .returning ∧
    (t = context.base → (s.tasks t).finishTo = none ∨ mode ≠ .live none)

def Statuses (s : State) (context : Context) (mode : Mode) : Prop :=
  if mode = .cancelling then
    (s.tasks context.base).status = .canceled ∧
      ∀ t ∈ context.chain, (s.tasks t).uninterruptable = false ∧
        ((s.tasks t).status = .running ∨ (s.tasks t).status = .canceled ∧
          ∀ at_, context.point = .yielded at_ → t = context.base)
  else ∀ t ∈ context.chain, (s.tasks t).status = .running ∨ Unready s context mode t ∨
    Flagged s context mode t

structure Family (s : State) (k : Nat) (context : Context) (children : List Nat) : Prop where
  nodup : children.Nodup
  live : ∀ t ∈ children, s.live t = true
  finish : ∀ t ∈ children, (s.tasks t).finishTo = some k
  apart : ∀ t ∈ children, t ∉ context.chain

def unfinished (s : State) (children : List Nat) : Nat :=
  children.countP fun t => (s.tasks t).status ≠ .completed

def active (s : State) (children : List Nat) : Nat :=
  children.countP fun t => (s.tasks t).status = .running

def NoneCompleted (s : State) (children : List Nat) : Prop :=
  ∀ t ∈ children, (s.tasks t).status ≠ .completed

def Untouched (s : State) (k : Nat) (children : List Nat) : Prop :=
  ∀ t ∈ children, (s.tasks t).status = .ready ∧ (s.tasks t).blockTo = some k

def FirstDone (s : State) (children : List Nat) (t : Nat) : Prop :=
  s.done.find? (fun other => other ∈ children) = some t

def Picked (s : State) (group : Nat) (children : List Nat) : Prop :=
  ∃ i t, (s.tasks group).completedId = some i ∧ children[i]? = some t ∧ FirstDone s children t

def Uncanceled (s : State) (children : List Nat) : Prop :=
  ∀ t ∈ children, (s.tasks t).status ≠ .canceled

/-- The books of the start loop after `i` children. -/
def Progress (s : State) (which : Combinator) (group : Nat) (children : List Nat)
    (i count : Nat) : Prop :=
  match which with
  | .allOf => count = unfinished s (children.take i) + (children.length - i) ∧
      Uncanceled s (children.take i)
  | .anyOf => NoneCompleted s (children.take i) ∧ (s.tasks group).completedId = none

def Waits (s : State) (which : Combinator) (group : Nat) (children : List Nat) (count : Nat) :
    Prop :=
  match which with
  | .allOf => count = unfinished s children ∧ Uncanceled s children
  | .anyOf => NoneCompleted s children ∧ (s.tasks group).completedId = none

def Woken (s : State) (which : Combinator) (children : List Nat) (count : Nat) : Prop :=
  match which with
  | .allOf => count = unfinished s children + 1 ∧ Uncanceled s children
  | .anyOf => ∃ t ∈ children, (s.tasks t).status = .completed ∧ FirstDone s children t ∧
      ∀ other ∈ children, (s.tasks other).status = .completed → other = t

/-- Where a coroutine can be in which mode, and the books of its innermost combinator. -/
def Placed (s : State) (k : Nat) (context : Context) (mode : Mode) : Prop :=
  match context.point with
  | .enter => mode.Live ∧ (s.tasks context.inner).completedId = none ∧
      (context.awaits = [] → (s.tasks context.base).finishTo ≠ none → mode ≠ .live none)
  | .user | .inStart _ => mode.Live ∧ (s.tasks context.inner).kind = .user
  | .starting i count => mode.Live ∧ ∃ which children,
      (s.tasks context.inner).kind = .group which children ∧ Family s k context children ∧
      i ≤ children.length ∧ Untouched s k (children.drop i) ∧
      Progress s which context.inner children i count
  | .started i count => mode.Live ∧ ∃ which children,
      (s.tasks context.inner).kind = .group which children ∧ Family s k context children ∧
      i < children.length ∧ Untouched s k (children.drop (i + 1)) ∧
      (∀ t, children[i]? = some t → (s.tasks t).status ≠ .canceled) ∧
      Progress s which context.inner children i count
  | .waiting count => mode.Live ∧ ∃ which children,
      (s.tasks context.inner).kind = .group which children ∧ Family s k context children ∧
      (Waits s which context.inner children count ∨
        which = .anyOf ∧ Picked s context.inner children)
  | .yielded .event => (s.tasks context.inner).kind = .event
  | .yielded (.wait count) => ∃ which children,
      (s.tasks context.inner).kind = .group which children ∧ Family s k context children ∧
      match mode with
      | .live _ => Woken s which children count
      | _ => Waits s which context.inner children count ∧ (which = .allOf → count ≠ 0)
  | .yielded (.cancelWait unsupport caller) =>
      caller = .anyRun ∧ mode ≠ .cancelling ∧
      (s.tasks context.inner).uninterruptable = true ∧
      ∃ children, (s.tasks context.inner).kind = .group .anyOf children ∧
        Family s k context children ∧ Picked s context.inner children ∧
        unsupport = active s children + match mode with
          | .live _ => 1
          | _ => 0
  | .cancelLoop i unsupport caller => ∃ which children,
      (s.tasks context.inner).kind = .group which children ∧ Family s k context children ∧
      i ≤ children.length ∧ unsupport = active s (children.take i) ∧
      Calls s context mode which children caller
  | .canceling i unsupport caller => ∃ which children t,
      (s.tasks context.inner).kind = .group which children ∧ Family s k context children ∧
      children[i]? = some t ∧ (s.tasks t).status ≠ .running ∧
      unsupport = active s (children.take i) ∧ Calls s context mode which children caller
  | .cancelWait unsupport caller => caller = .anyRun ∧ mode.Live ∧
      (s.tasks context.inner).uninterruptable = true ∧
      ∃ children, (s.tasks context.inner).kind = .group .anyOf children ∧
        Family s k context children ∧ Picked s context.inner children ∧
        unsupport = active s children
  | .goal => mode.Live ∧ ∃ which children,
      (s.tasks context.inner).kind = .group which children ∧ Family s k context children ∧
      (∀ t ∈ children, (s.tasks t).status ≠ .running) ∧
      match which with
      | .allOf => ∀ t ∈ children, (s.tasks t).status = .completed
      | .anyOf => Picked s context.inner children
  | .returning => mode.Live ∨ mode = .cancelling ∧ context.awaits = []
  | .throwing => (∀ t ∈ context.chain, (s.tasks t).uninterruptable = false) ∧
      (∀ which children, (s.tasks context.inner).kind = .group which children →
        Family s k context children) ∧
      (mode = .cancelling ∨
        mode = .live none ∧ (s.tasks context.inner).kind = .user ∧ Doomed s context)
where
  /-- Which mode belongs to which caller of `__task_cancel_children`. -/
  Calls (s : State) (context : Context) (mode : Mode) (which : Combinator)
      (children : List Nat) : CancelCaller → Prop
    | .anyRun => mode.Live ∧ which = .anyOf ∧ Picked s context.inner children
    | .yield => mode = .cancelling ∧ context.awaits = []
    | .await => mode = .cancelling ∧ context.awaits ≠ [] ∧
        (s.tasks context.inner).status = .canceled
    | .runtime => mode = .cancelling ∧ context.awaits = []
    | .cancelWait => False

structure Sound (s : State) (k : Nat) (context : Context) (mode : Mode) : Prop where
  owned : ∀ t ∈ context.chain, s.live t = true ∧ (s.tasks t).uid = some k
  nodup : context.chain.Nodup
  manager : s.manager k = some context.base
  stamp : context.stamp < s.clock
  mirrors : Mirrors s none context.chain
  parents : context.awaits.map Frame.parent = context.chain.tail
  outer : ∀ t ∈ context.chain.tail, (s.tasks t).kind = .user ∧ (s.tasks t).blockTo = none
  awaited : ∀ t ∈ context.awaits.map Frame.target, (s.tasks t).finishTo = some k
  token : (s.tasks context.inner).blockTo = mode.token
  spent : ∀ at_, context.point = .yielded at_ → mode.token = none
  adopted : ∀ q, (s.tasks context.base).finishTo = some q → Adopted s q context
  statuses : Statuses s context mode
  placed : Placed s k context mode

/-- Coroutine `k` stands on coroutine `q`. -/
def Link (s : State) (k : Nat) (mode : Mode) (q : Nat) : Prop :=
  ∃ upper lower, s.contexts k = some upper ∧ s.contexts q = some lower ∧
    lower.stamp < upper.stamp ∧
    match lower.point with
    | .inStart target => upper.base = target ∧ mode = .live (some q) ∧
        (s.tasks target).finishTo = none
    | .started i _ => mode = .live (some q) ∧ (s.tasks upper.base).finishTo = some q ∧
        ∃ which children, (s.tasks lower.inner).kind = .group which children ∧
          children[i]? = some upper.base
    | .canceling i _ _ => mode = .cancelling ∧ (s.tasks upper.base).finishTo = some q ∧
        ∃ which children, (s.tasks lower.inner).kind = .group which children ∧
          children[i]? = some upper.base
    | _ => False

/-- A stack of coroutines, the running one first. The last one was resumed by the event
loop and has nobody to return to. -/
def Nested (s : State) : Nest → Prop
  | [] => True
  | [(k, mode)] => (∃ context, s.contexts k = some context) ∧ mode = .live none
  | (k, mode) :: (q, below) :: rest => Link s k mode q ∧ Nested s ((q, below) :: rest)

/-- The invariant of properly nested control, for a given stack. -/
structure Invariant (s : State) (nest : Nest) : Prop where
  nested : Nested s nest
  exec : s.exec = nest.head?.map Prod.fst
  sound : ∀ k context, s.contexts k = some context → Sound s k context (modeOf nest k)
  fresh : ∀ t, s.live t = true → (s.tasks t).status = .ready →
    ∃ j, (s.tasks t).uid = some j ∧ s.manager j = some t ∧ s.contexts j = none
  unused : ∀ t, s.live t = true → (s.tasks t).status = .ready ∨ (s.tasks t).status = .limited →
    (s.tasks t).reuse = none ∧ (s.tasks t).completedId = none
  running : ∀ t, s.live t = true → (s.tasks t).status = .running →
    ∃ k context, s.contexts k = some context ∧ t ∈ context.chain
  bounded : ∀ t, s.live t = true → t < s.next
  done : ∀ t, t ∈ s.done ↔ (s.tasks t).status = .completed
  past : ∀ t ∈ s.done, t < s.next
  armed : ∀ t, s.armed t = true → (s.tasks t).kind = .event ∧
    ∃ k context, s.contexts k = some context ∧ context.inner = t ∧
      (context.point = .yielded .event ∨ context.point = .throwing) ∧ ¬(modeOf nest k).Live
  signal : s.signal = true ↔ ∃ k context rest at_, nest = (k, .cancelling) :: rest ∧
    s.contexts k = some context ∧ context.point = .yielded at_
  current : ∀ k context, s.exec = some k → s.contexts k = some context →
    ∃ t ∈ context.chain, s.current = some t

section Chains

theorem inner_mem (context : Context) : context.inner ∈ context.chain := by
  unfold Context.inner Context.chain
  cases context.awaits <;> simp

theorem base_mem (context : Context) : context.base ∈ context.chain := by
  simp [Context.chain]

theorem chain_cons (context : Context) :
    context.chain = context.inner :: context.chain.tail := by
  unfold Context.inner Context.chain
  cases context.awaits <;> simp

theorem chain_cases {context : Context} {t : Nat} (member : t ∈ context.chain) :
    t ∈ context.awaits.map Frame.target ∨ t = context.base := by
  simpa [Context.chain] using member

theorem target_ne_base {context : Context} {t : Nat} (nodup : context.chain.Nodup)
    (target : t ∈ context.awaits.map Frame.target) : t ≠ context.base := by
  unfold Context.chain at nodup
  intro same
  exact (List.nodup_append.mp nodup).2.2 t target context.base (by simp) same

theorem chain_of_same {context next : Context} (base : next.base = context.base)
    (awaits : next.awaits = context.awaits) :
    next.chain = context.chain ∧ next.inner = context.inner := by
  unfold Context.chain Context.inner
  rw [base, awaits]
  exact ⟨rfl, rfl⟩

end Chains

section Modes

theorem modeOf_head (k : Nat) (mode : Mode) (rest : Nest) :
    modeOf ((k, mode) :: rest) k = mode := if_pos rfl

theorem modeOf_tail {k l : Nat} (mode : Mode) (rest : Nest) (apart : l ≠ k) :
    modeOf ((k, mode) :: rest) l = modeOf rest l := if_neg apart

theorem modeOf_absent {nest : Nest} {l : Nat} (absent : l ∉ nest.map Prod.fst) :
    modeOf nest l = .parked := by
  induction nest with
  | nil => rfl
  | cons entry rest ih =>
      obtain ⟨k, mode⟩ := entry
      simp only [List.map_cons, List.mem_cons, not_or] at absent
      rw [modeOf_tail mode rest absent.1]
      exact ih absent.2

end Modes

def switched : Point → Prop
  | .inStart _ | .started _ _ | .canceling _ _ _ => True
  | _ => False

theorem link_switched {s : State} {k q : Nat} {mode : Mode} {lower : Context}
    (link : Link s k mode q) (found : s.contexts q = some lower) : switched lower.point := by
  obtain ⟨upper, other, -, same, -, waits⟩ := link
  rw [found] at same
  cases same
  cases h : lower.point <;> simp [h] at waits <;> exact trivial

theorem nested_below {s : State} {k : Nat} {mode : Mode} {rest : Nest} {context : Context}
    (nested : Nested s ((k, mode) :: rest)) (found : s.contexts k = some context) :
    ∀ l ∈ rest.map Prod.fst, ∃ lower, s.contexts l = some lower ∧
      lower.stamp < context.stamp ∧ switched lower.point := by
  induction rest generalizing k mode context with
  | nil => simp
  | cons entry rest ih =>
      obtain ⟨q, below⟩ := entry
      obtain ⟨link, nested⟩ := nested
      obtain ⟨upper, lower, foundUpper, foundLower, earlier, -⟩ := id link
      rw [found] at foundUpper
      cases foundUpper
      intro l member
      rcases List.mem_cons.mp member with rfl | later
      · exact ⟨lower, foundLower, earlier, link_switched link foundLower⟩
      · obtain ⟨deeper, foundDeeper, older, waits⟩ := ih nested foundLower l later
        exact ⟨deeper, foundDeeper, by omega, waits⟩

theorem calls_parked {s : State} {context : Context} {which : Combinator}
    {children : List Nat} {caller : CancelCaller} :
    ¬Placed.Calls s context .parked which children caller := by
  cases caller <;> simp [Placed.Calls, Mode.Live]

theorem placed_parked {s : State} {k : Nat} {context : Context}
    (placed : Placed s k context .parked) : ∃ at_, context.point = .yielded at_ := by
  cases h : context.point <;> simp [Placed, h, Mode.Live, calls_parked] at placed
  case yielded at_ => exact ⟨at_, rfl⟩

theorem placed_family {s : State} {k : Nat} {context : Context} {mode : Mode}
    {which : Combinator} {children : List Nat} (placed : Placed s k context mode)
    (kind : (s.tasks context.inner).kind = .group which children)
    (open_ : opened context.point = true) : Family s k context children := by
  cases point : context.point <;> simp only [Placed, point, kind] at placed <;>
    simp [opened, point] at open_
  case starting => obtain ⟨-, _, _, same, family, -⟩ := placed; cases same; exact family
  case started => obtain ⟨-, _, _, same, family, -⟩ := placed; cases same; exact family
  case waiting => obtain ⟨-, _, _, same, family, -⟩ := placed; cases same; exact family
  case cancelLoop => obtain ⟨_, _, same, family, -⟩ := placed; cases same; exact family
  case canceling => obtain ⟨_, _, _, same, family, -⟩ := placed; cases same; exact family
  case cancelWait => obtain ⟨-, -, -, _, same, family, -⟩ := placed; cases same; exact family
  case throwing => exact placed.2.1 which children rfl
  case yielded at_ =>
      cases at_ with
      | event => simp at open_
      | wait count => obtain ⟨_, _, same, family, -⟩ := placed; cases same; exact family
      | cancelWait unsupport caller =>
          obtain ⟨-, -, -, _, same, family, -⟩ := placed
          cases same
          exact family

section Frame

structure Alike (before after : Task) : Prop where
  status : after.status = before.status
  blockTo : before.status = .ready → after.blockTo = before.blockTo

variable {s s' : State} {k : Nat} {context : Context} {mode : Mode}

theorem unfinished_congr {children : List Nat}
    (same : ∀ t ∈ children, (s'.tasks t).status = (s.tasks t).status) :
    unfinished s' children = unfinished s children := by
  unfold unfinished
  apply List.countP_congr
  intro t member
  rw [same t member]

theorem active_congr {children : List Nat}
    (same : ∀ t ∈ children, (s'.tasks t).status = (s.tasks t).status) :
    active s' children = active s children := by
  unfold active
  apply List.countP_congr
  intro t member
  rw [same t member]

theorem uncanceled_congr {children : List Nat}
    (same : ∀ t ∈ children, (s'.tasks t).status = (s.tasks t).status)
    (uncanceled : Uncanceled s children) : Uncanceled s' children := by
  intro t member
  rw [same t member]
  exact uncanceled t member

theorem untouched_congr {children : List Nat} (same : ∀ t ∈ children, Alike (s.tasks t) (s'.tasks t))
    (untouched : Untouched s k children) : Untouched s' k children := by
  intro t member
  obtain ⟨ready, block⟩ := untouched t member
  exact ⟨(same t member).status.trans ready, ((same t member).blockTo ready).trans block⟩

theorem picked_congr {group : Nat} {children : List Nat}
    (same : (s'.tasks group).completedId = (s.tasks group).completedId)
    (done : s'.done.find? (fun other => other ∈ children) =
      s.done.find? (fun other => other ∈ children))
    (picked : Picked s group children) : Picked s' group children := by
  obtain ⟨i, t, chosen, at_, first⟩ := picked
  exact ⟨i, t, same.trans chosen, at_, done.trans first⟩

theorem progress_congr {which : Combinator} {group : Nat} {children : List Nat} {i count : Nat}
    (same : (s'.tasks group).completedId = (s.tasks group).completedId)
    (statuses : ∀ t ∈ children.take i, (s'.tasks t).status = (s.tasks t).status)
    (progress : Progress s which group children i count) :
    Progress s' which group children i count := by
  cases which with
  | allOf =>
      obtain ⟨counted, uncanceled⟩ := progress
      refine ⟨?_, uncanceled_congr statuses uncanceled⟩
      rw [unfinished_congr statuses]
      exact counted
  | anyOf =>
      obtain ⟨none, chosen⟩ := progress
      exact ⟨fun t member => by rw [statuses t member]; exact none t member, same.trans chosen⟩

theorem waits_congr {which : Combinator} {group : Nat} {children : List Nat} {count : Nat}
    (same : (s'.tasks group).completedId = (s.tasks group).completedId)
    (statuses : ∀ t ∈ children, (s'.tasks t).status = (s.tasks t).status)
    (waits : Waits s which group children count) : Waits s' which group children count := by
  cases which with
  | allOf =>
      obtain ⟨counted, uncanceled⟩ := waits
      refine ⟨?_, uncanceled_congr statuses uncanceled⟩
      rw [unfinished_congr statuses]
      exact counted
  | anyOf =>
      obtain ⟨none, chosen⟩ := waits
      exact ⟨fun t member => by rw [statuses t member]; exact none t member, same.trans chosen⟩

theorem woken_congr {which : Combinator} {children : List Nat} {count : Nat}
    (statuses : ∀ t ∈ children, (s'.tasks t).status = (s.tasks t).status)
    (done : s'.done.find? (fun other => other ∈ children) =
      s.done.find? (fun other => other ∈ children))
    (woken : Woken s which children count) : Woken s' which children count := by
  cases which with
  | allOf =>
      obtain ⟨counted, uncanceled⟩ := woken
      refine ⟨?_, uncanceled_congr statuses uncanceled⟩
      rw [unfinished_congr statuses]
      exact counted
  | anyOf =>
      obtain ⟨t, member, completed, first, only⟩ := woken
      refine ⟨t, member, (statuses t member).trans completed, done.trans first, ?_⟩
      intro other inside finished
      exact only other inside ((statuses other inside).symm.trans finished)

theorem mirrors_congr {inside : Option Nat} {chain : List Nat}
    (same : ∀ t ∈ chain, (s'.tasks t).reuse = (s.tasks t).reuse)
    (mirrors : Mirrors s inside chain) : Mirrors s' inside chain := by
  induction chain generalizing inside with
  | nil => trivial
  | cons t outer ih =>
      obtain ⟨here, further⟩ := mirrors
      exact ⟨(same t (by simp)).trans here,
        ih (fun other member => same other (by simp [member])) further⟩

theorem family_congr {children : List Nat} (family : Family s k context children)
    (live : ∀ t ∈ children, s'.live t = s.live t)
    (finish : ∀ t ∈ children, (s'.tasks t).finishTo = (s.tasks t).finishTo) :
    Family s' k context children where
  nodup := family.nodup
  live := fun t member => (live t member).trans (family.live t member)
  finish := fun t member => (finish t member).trans (family.finish t member)
  apart := family.apart

theorem nodup_around {children : List Nat} {i t : Nat} (nodup : children.Nodup)
    (here : children[i]? = some t) : t ∉ children.take i ∧ t ∉ children.drop (i + 1) := by
  obtain ⟨inside, rfl⟩ := List.getElem?_eq_some_iff.mp here
  have split : children = children.take i ++ children[i] :: children.drop (i + 1) := by
    rw [List.getElem_cons_drop, List.take_append_drop]
  rw [split] at nodup
  obtain ⟨-, later, apart⟩ := List.nodup_append.mp nodup
  refine ⟨fun before => ?_, (List.nodup_cons.mp later).1⟩
  exact apart _ before _ List.mem_cons_self rfl

/-- What a step elsewhere may do to the children of a combinator: nothing that its books
see, except to the child that is just being started. -/
def ChildrenKept (s s' : State) (context : Context) : Prop :=
  ∀ which children, (s.tasks context.inner).kind = .group which children →
    opened context.point = true → ∀ t ∈ children,
      s'.live t = s.live t ∧ (s'.tasks t).finishTo = (s.tasks t).finishTo ∧
        (Alike (s.tasks t) (s'.tasks t) ∨
          (∃ i count, context.point = .started i count ∧ children[i]? = some t) ∧
            (s'.tasks t).status ≠ .canceled)

/-- The order of completions among the children of an open combinator, which is not looked at
while a child is being started. -/
def DoneKept (s s' : State) (context : Context) : Prop :=
  ∀ which children, (s.tasks context.inner).kind = .group which children →
    opened context.point = true → (∀ i count, context.point ≠ .started i count) →
      s'.done.find? (fun other => other ∈ children) =
        s.done.find? (fun other => other ∈ children)

theorem ChildrenKept.alike {which : Combinator} {children : List Nat}
    (kept : ChildrenKept s s' context)
    (kind : (s.tasks context.inner).kind = .group which children)
    (open_ : opened context.point = true)
    (elsewhere : ∀ i count, context.point ≠ .started i count) :
    ∀ t ∈ children, Alike (s.tasks t) (s'.tasks t) := by
  intro t member
  rcases (kept which children kind open_ t member).2.2 with alike | ⟨⟨i, count, point, -⟩, -⟩
  · exact alike
  · exact absurd point (elsewhere i count)

theorem ChildrenKept.family {which : Combinator} {children : List Nat}
    (kept : ChildrenKept s s' context)
    (kind : (s.tasks context.inner).kind = .group which children)
    (open_ : opened context.point = true) (family : Family s k context children) :
    Family s' k context children :=
  family_congr family (fun t member => (kept which children kind open_ t member).1)
    (fun t member => (kept which children kind open_ t member).2.1)

theorem nested_congr {nest : Nest} (nested : Nested s nest)
    (head : ∀ l mode below, nest = (l, mode) :: below → ∀ context, s.contexts l = some context →
      ∃ next, s'.contexts l = some next ∧ next.base = context.base ∧
        next.stamp = context.stamp)
    (tail : ∀ l ∈ nest.tail.map Prod.fst, s'.contexts l = s.contexts l)
    (same : ∀ l other, s.contexts l = some other →
      (s'.tasks other.base).finishTo = (s.tasks other.base).finishTo ∧
        (s'.tasks other.inner).kind = (s.tasks other.inner).kind) : Nested s' nest := by
  induction nest with
  | nil => trivial
  | cons entry below ih =>
      obtain ⟨l, mode⟩ := entry
      cases below with
      | nil =>
          obtain ⟨⟨context, found⟩, bottom⟩ := nested
          obtain ⟨next, moved, -⟩ := head l mode [] rfl context found
          exact ⟨⟨next, moved⟩, bottom⟩
      | cons lower deeper =>
          obtain ⟨q, mode'⟩ := lower
          obtain ⟨⟨upper, context, above, found, earlier, waits⟩, further⟩ := nested
          obtain ⟨next, moved, base, stamp⟩ := head l mode _ rfl upper above
          have kept : s'.contexts q = s.contexts q := tail q (by simp)
          refine ⟨⟨next, context, moved, kept.trans found, by omega, ?_⟩, ?_⟩
          · have finish := (same l upper above).1
            have inner := (same q context found).2
            cases point : context.point with
            | inStart target =>
                simp only [point] at waits ⊢
                obtain ⟨rfl, live, started⟩ := waits
                exact ⟨base, live, by rw [finish]; exact started⟩
            | started i count =>
                simp only [point] at waits ⊢
                rw [base, finish, inner]
                exact waits
            | canceling i unsupport caller =>
                simp only [point] at waits ⊢
                rw [base, finish, inner]
                exact waits
            | _ => simp [point] at waits
          · refine ih further ?_ (fun l' member => tail l' (by simp at member ⊢; tauto))
            intro l' mode'' below' shape other there
            cases shape
            exact ⟨other, kept.trans there, rfl, rfl⟩

theorem calls_congr {which : Combinator} {children : List Nat} {caller : CancelCaller}
    (same : s'.tasks context.inner = s.tasks context.inner)
    (done : s'.done.find? (fun other => other ∈ children) =
      s.done.find? (fun other => other ∈ children))
    (calls : Placed.Calls s context mode which children caller) :
    Placed.Calls s' context mode which children caller := by
  cases caller with
  | anyRun =>
      obtain ⟨live, any, picked⟩ := calls
      exact ⟨live, any, picked_congr (by rw [same]) done picked⟩
  | yield => exact calls
  | await =>
      obtain ⟨cancelling, inside, canceled⟩ := calls
      exact ⟨cancelling, inside, by rw [same]; exact canceled⟩
  | runtime => exact calls
  | cancelWait => exact calls

theorem placed_frame (chain : ∀ t ∈ context.chain, s'.tasks t = s.tasks t)
    (kept : ChildrenKept s s' context) (elsewhere : context.point ≠ .goal)
    (doomed : Doomed s context → Doomed s' context)
    (done : DoneKept s s' context)
    (placed : Placed s k context mode) : Placed s' k context mode := by
  have inner := chain _ (inner_mem context)
  have base := chain _ (base_mem context)
  have chosen : (s'.tasks context.inner).completedId = (s.tasks context.inner).completedId := by
    rw [inner]
  cases point : context.point with
  | enter => simpa only [Placed, point, inner, base] using placed
  | user => simpa only [Placed, point, inner] using placed
  | inStart target => simpa only [Placed, point, inner] using placed
  | returning => simpa only [Placed, point] using placed
  | goal => exact absurd point elsewhere
  | starting i count =>
      simp only [Placed, point, inner] at placed ⊢
      obtain ⟨live, which, children, kind, family, bound, untouched, progress⟩ := placed
      have open_ : opened context.point = true := by rw [point]; rfl
      have alike := kept.alike kind open_ (by simp [point])
      refine ⟨live, which, children, kind, kept.family kind open_ family, bound, ?_, ?_⟩
      · exact untouched_congr (fun t member => alike t (List.mem_of_mem_drop member)) untouched
      · exact progress_congr chosen
          (fun t member => (alike t (List.mem_of_mem_take member)).status) progress
  | started i count =>
      simp only [Placed, point, inner] at placed ⊢
      obtain ⟨live, which, children, kind, family, bound, untouched, uncanceled, progress⟩ := placed
      have open_ : opened context.point = true := by rw [point]; rfl
      -- only the child that is being started may have a new status
      have alike (t : Nat) (member : t ∈ children) (other : children[i]? ≠ some t) :
          Alike (s.tasks t) (s'.tasks t) := by
        rcases (kept which children kind open_ t member).2.2 with alike | ⟨⟨j, n, same, here⟩, -⟩
        · exact alike
        · rw [point] at same
          cases same
          exact absurd here other
      refine ⟨live, which, children, kind, kept.family kind open_ family, bound, ?_, ?_, ?_⟩
      · refine untouched_congr (fun t member => ?_) untouched
        exact alike t (List.mem_of_mem_drop member) fun here =>
          (nodup_around family.nodup here).2 member
      · intro t here
        rcases (kept which children kind open_ t (List.mem_of_getElem? here)).2.2 with
          alike | ⟨-, running⟩
        · rw [alike.status]
          exact uncanceled t here
        · exact running
      · refine progress_congr chosen (fun t member => ?_) progress
        exact (alike t (List.mem_of_mem_take member) fun here =>
          (nodup_around family.nodup here).1 member).status
  | waiting count =>
      simp only [Placed, point, inner] at placed ⊢
      obtain ⟨live, which, children, kind, family, books⟩ := placed
      have open_ : opened context.point = true := by rw [point]; rfl
      have alike := kept.alike kind open_ (by simp [point])
      refine ⟨live, which, children, kind, kept.family kind open_ family, ?_⟩
      rcases books with waits | ⟨any, picked⟩
      · exact Or.inl (waits_congr chosen (fun t member => (alike t member).status) waits)
      · exact Or.inr ⟨any, picked_congr chosen (done which children kind open_ (by simp [point])) picked⟩
  | yielded at_ =>
      cases at_ with
      | event => simpa only [Placed, point, inner] using placed
      | wait count =>
          simp only [Placed, point, inner] at placed ⊢
          obtain ⟨which, children, kind, family, books⟩ := placed
          have open_ : opened context.point = true := by rw [point]; rfl
          have alike := kept.alike kind open_ (by simp [point])
          have statuses : ∀ t ∈ children, (s'.tasks t).status = (s.tasks t).status :=
            fun t member => (alike t member).status
          refine ⟨which, children, kind, kept.family kind open_ family, ?_⟩
          cases mode with
          | live token => exact woken_congr statuses (done which children kind open_ (by simp [point])) books
          | parked => exact ⟨waits_congr chosen statuses books.1, books.2⟩
          | cancelling => exact ⟨waits_congr chosen statuses books.1, books.2⟩
      | cancelWait unsupport caller =>
          simp only [Placed, point, inner] at placed ⊢
          obtain ⟨any, uncancelled, protect, children, kind, family, picked, count⟩ := placed
          have open_ : opened context.point = true := by rw [point]; rfl
          have alike := kept.alike kind open_ (by simp [point])
          refine ⟨any, uncancelled, protect, children, kind, kept.family kind open_ family,
            picked_congr chosen (done _ children kind open_ (by simp [point])) picked, ?_⟩
          rw [active_congr fun t member => (alike t member).status]
          exact count
  | cancelLoop i unsupport caller =>
      simp only [Placed, point, inner] at placed ⊢
      obtain ⟨which, children, kind, family, bound, count, calls⟩ := placed
      have open_ : opened context.point = true := by rw [point]; rfl
      have alike := kept.alike kind open_ (by simp [point])
      refine ⟨which, children, kind, kept.family kind open_ family, bound, ?_,
        calls_congr inner (done which children kind open_ (by simp [point])) calls⟩
      rw [active_congr fun t member => (alike t (List.mem_of_mem_take member)).status]
      exact count
  | canceling i unsupport caller =>
      simp only [Placed, point, inner] at placed ⊢
      obtain ⟨which, children, t, kind, family, here, stopped, count, calls⟩ := placed
      have open_ : opened context.point = true := by rw [point]; rfl
      have alike := kept.alike kind open_ (by simp [point])
      refine ⟨which, children, t, kind, kept.family kind open_ family, here, ?_, ?_,
        calls_congr inner (done which children kind open_ (by simp [point])) calls⟩
      · rw [(alike t (List.mem_of_getElem? here)).status]
        exact stopped
      · rw [active_congr fun t member => (alike t (List.mem_of_mem_take member)).status]
        exact count
  | cancelWait unsupport caller =>
      simp only [Placed, point, inner] at placed ⊢
      obtain ⟨any, live, protect, children, kind, family, picked, count⟩ := placed
      have open_ : opened context.point = true := by rw [point]; rfl
      have alike := kept.alike kind open_ (by simp [point])
      refine ⟨any, live, protect, children, kind, kept.family kind open_ family,
        picked_congr chosen (done _ children kind open_ (by simp [point])) picked, ?_⟩
      rw [active_congr fun t member => (alike t member).status]
      exact count
  | throwing =>
      simp only [Placed, point, inner] at placed ⊢
      obtain ⟨unprotected, families, way⟩ := placed
      have open_ : opened context.point = true := by rw [point]; rfl
      refine ⟨fun t member => by rw [chain t member]; exact unprotected t member, ?_, ?_⟩
      · intro which children kind
        exact kept.family kind open_ (families which children kind)
      rcases way with cancelling | ⟨live, user, sheltered⟩
      · exact Or.inl cancelling
      · exact Or.inr ⟨live, user, doomed sheltered⟩

theorem statuses_frame (chain : ∀ t ∈ context.chain, s'.tasks t = s.tasks t)
    (doomed : Doomed s context → Doomed s' context) (statuses : Statuses s context mode) :
    Statuses s' context mode := by
  unfold Statuses at statuses ⊢
  split
  · rename_i cancelling
    rw [if_pos cancelling] at statuses
    rw [chain _ (base_mem context)]
    exact ⟨statuses.1, fun t member => by rw [chain t member]; exact statuses.2 t member⟩
  · rename_i uncancelled
    rw [if_neg uncancelled] at statuses
    intro t member
    have same := chain t member
    rcases statuses t member with running | unready | flagged
    · exact Or.inl (by rw [same]; exact running)
    · refine Or.inr (Or.inl ?_)
      unfold Unready
      rw [same]
      exact unready
    · obtain ⟨status, protect, token, sheltered, inside, outer, split, more, outside⟩ := flagged
      refine Or.inr (Or.inr ⟨by rw [same]; exact status, by rw [same]; exact protect, token,
        doomed sheltered, inside, outer, split, more, ?_⟩)
      intro other later
      rw [chain other (by simp [split, later])]
      exact outside other later

theorem sound_frame (sound : Sound s k context mode)
    (chain : ∀ t ∈ context.chain, s'.tasks t = s.tasks t ∧ s'.live t = s.live t)
    (kept : ChildrenKept s s' context) (elsewhere : context.point ≠ .goal)
    (manager : s'.manager k = s.manager k) (clock : s.clock ≤ s'.clock)
    (adopted : ∀ q, (s.tasks context.base).finishTo = some q → Adopted s q context →
      Adopted s' q context)
    (doomed : Doomed s context → Doomed s' context)
    (done : DoneKept s s' context) : Sound s' k context mode where
  owned := fun t member => by
    rw [(chain t member).1, (chain t member).2]
    exact sound.owned t member
  nodup := sound.nodup
  manager := manager.trans sound.manager
  stamp := Nat.lt_of_lt_of_le sound.stamp clock
  mirrors := mirrors_congr (fun t member => by rw [(chain t member).1]) sound.mirrors
  parents := sound.parents
  outer := fun t member => by
    rw [(chain t (List.mem_of_mem_tail member)).1]
    exact sound.outer t member
  awaited := fun t member => by
    rw [(chain t (by simp [Context.chain] at member ⊢; exact Or.inl member)).1]
    exact sound.awaited t member
  token := by
    rw [(chain _ (inner_mem context)).1]
    exact sound.token
  spent := sound.spent
  adopted := fun q finish => by
    rw [(chain _ (base_mem context)).1] at finish
    exact adopted q finish (sound.adopted q finish)
  statuses := statuses_frame (fun t member => (chain t member).1) doomed sound.statuses
  placed := placed_frame (fun t member => (chain t member).1) kept elsewhere doomed done
    sound.placed

end Frame

end Cocoflow.SchedulerNest
