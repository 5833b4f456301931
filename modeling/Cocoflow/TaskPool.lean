import Mathlib.Data.List.Basic
import Mathlib.Data.List.Perm.Basic
import Mathlib.Data.List.Nodup
import Mathlib.Logic.Function.Basic
import Cocoflow.LabelledRuns
import Cocoflow.PointUpdates

/-!
The id pools of `task<UserPages, ProtectPages>` (include/cocoflow.h). Each template
class owns one array of ids with two pointers into it. An id leaves the array in the
constructor and comes back either early, in the inline `await`, or in the destructor.
While a task is awaited it carries the id of the task that awaits it, which may belong
to another class; `__await` takes it away again on both of its exits.

`Option Nat` models `_unique_id`: `none` is `EVENT_LOOP_ID`. Ids are below the counter
`g_max_task_num`. It is a `uint32`, so an id could only collide with `EVENT_LOOP_ID`
after that counter has wrapped, and then `__init` has already run past its tables.
-/

namespace Cocoflow.TaskPool

open LabelledRuns PointUpdates

abbrev Uid := Option Nat

/-- The free list of one class. `front` is `free_list_front` as an offset from the start
of the array and `maxTaskNum` is the offset of `free_list_end`. The cells are addressed by
integers so that a pointer before the array is a value, not an impossible state. -/
structure ClassPool where
  first : Nat
  maxTaskNum : Nat
  cells : Int → Nat
  front : Int

namespace ClassPool

/-- `__init_setting`: the class takes the next `maxTaskNum` ids of the global counter. -/
def initSetting (counter maxTaskNum : Nat) : ClassPool where
  first := counter
  maxTaskNum := maxTaskNum
  cells := fun offset => counter + offset.toNat
  front := 0

/-- `*(free_list_front++)`, guarded by `free_list_front != free_list_end`. -/
def pop (pool : ClassPool) : Option (Nat × ClassPool) :=
  if pool.front = pool.maxTaskNum then none
  else some (pool.cells pool.front, { pool with front := pool.front + 1 })

/-- `*(--free_list_front) = id`. Nothing guards the pointer. -/
def push (pool : ClassPool) (id : Nat) : ClassPool :=
  { pool with
    front := pool.front - 1
    cells := Function.update pool.cells (pool.front - 1) id }

def free (pool : ClassPool) : List Nat :=
  (List.range (pool.maxTaskNum - pool.front).toNat).map fun i : Nat =>
    pool.cells (pool.front + (i : Int))

theorem free_length (pool : ClassPool) :
    pool.free.length = (pool.maxTaskNum - pool.front).toNat := by
  simp [free]

theorem free_initSetting (counter maxTaskNum : Nat) :
    (initSetting counter maxTaskNum).free = List.range' counter maxTaskNum := by
  have extent : ((maxTaskNum : Int) - 0).toNat = maxTaskNum := by omega
  rw [List.range'_eq_map_range]
  simp only [free, initSetting, extent]
  apply List.map_congr_left
  intro i _
  have offset : ((0 : Int) + (i : Int)).toNat = i := by omega
  rw [offset]

theorem free_push (pool : ClassPool) (id : Nat) (inside : pool.front ≤ pool.maxTaskNum) :
    (pool.push id).free = id :: pool.free := by
  have longer : ((pool.maxTaskNum : Int) - (pool.front - 1)).toNat =
      (pool.maxTaskNum - pool.front).toNat + 1 := by omega
  simp only [free, push, longer, List.range_succ_eq_map, List.map_cons, List.map_map]
  congr 1
  · simp
  · apply List.map_congr_left
    intro i _
    have shifted : pool.front - 1 + ((i + 1 : Nat) : Int) = pool.front + i := by omega
    have apart : pool.front + (i : Int) ≠ pool.front - 1 := by omega
    simp only [Function.comp_apply, Nat.succ_eq_add_one, shifted, Function.update_of_ne apart]

theorem free_pop (pool rest : ClassPool) (id : Nat) (inside : pool.front ≤ pool.maxTaskNum)
    (taken : pool.pop = some (id, rest)) : pool.free = id :: rest.free := by
  unfold pop at taken
  split at taken
  · cases taken
  · rename_i notEnd
    obtain ⟨rfl, rfl⟩ := Prod.mk.inj (Option.some.inj taken)
    have longer : ((pool.maxTaskNum : Int) - pool.front).toNat =
        (pool.maxTaskNum - (pool.front + 1)).toNat + 1 := by omega
    simp only [free, longer, List.range_succ_eq_map, List.map_cons, List.map_map]
    congr 1
    · simp
    · apply List.map_congr_left
      intro i _
      have shifted : pool.front + ((i + 1 : Nat) : Int) = pool.front + 1 + i := by omega
      simp only [Function.comp_apply, Nat.succ_eq_add_one, shifted]

theorem pop_front (pool rest : ClassPool) (id : Nat) (inside : pool.front ≤ pool.maxTaskNum)
    (taken : pool.pop = some (id, rest)) :
    rest.front ≤ rest.maxTaskNum ∧ rest.first = pool.first ∧
      rest.maxTaskNum = pool.maxTaskNum := by
  unfold pop at taken
  split at taken
  · cases taken
  · rename_i notEnd
    obtain ⟨rfl, rfl⟩ := Prod.mk.inj (Option.some.inj taken)
    refine ⟨?_, rfl, rfl⟩
    change pool.front + 1 ≤ pool.maxTaskNum
    omega

end ClassPool

/-- How far the life of a task object has come. `status()` is not enough here: it may
already read `canceled` while an uninterruptable task is still inside its `run()`. -/
inductive Phase where
  | ready | limited | running | ended
  deriving DecidableEq

/-- What a task object shows to the pools. `awaited` records that the object has been
handed to `__await`. -/
structure TaskObject where
  cls : Nat
  uniqueId : Uid
  phase : Phase
  awaited : Bool

/-- The id a live task holds of its own. A task that is being or has been awaited
holds none, whatever its `_unique_id` reads. -/
def TaskObject.owned (object : TaskObject) : Option Nat :=
  if object.awaited then none else object.uniqueId

structure Pools where
  classes : Nat → Option ClassPool
  counter : Nat
  initialized : Bool
  objects : Nat → Option TaskObject
  next : Nat

def empty : Pools where
  classes := fun _ => none
  counter := 0
  initialized := false
  objects := fun _ => none
  next := 0

/-- The operations of the public interface, cut where other tasks may run in between.
`run` is a `start` of a ready task or a combinator switching into a ready child;
`finish` ends a child (or the top task), `finishStarted` a started task, which
`__task_runtime` deletes. -/
inductive Op where
  | init (cls maxTaskNum : Nat)
  | construct (cls : Nat)
  | await (target parent : Nat)
  | awaitReturn (target : Nat)
  | awaitInterrupt (target : Nat)
  | run (target : Nat)
  | finish (target : Nat)
  | finishStarted (target : Nat)
  | startLimited (target : Nat)
  | destroy (target : Nat)

/-- `*(--free_list_front) = _unique_id`, skipped for `EVENT_LOOP_ID`. The destructor and
the inline `await` share it. -/
def giveBack (classes : Nat → Option ClassPool) (object : TaskObject) : Nat → Option ClassPool :=
  match object.uniqueId with
  | none => classes
  | some id => Function.update classes object.cls ((classes object.cls).map (·.push id))

def destruct (pools : Pools) (target : Nat) (object : TaskObject) : Pools :=
  { pools with
    classes := giveBack pools.classes object
    objects := Function.update pools.objects target none }

def construct (pools : Pools) (cls : Nat) (pool : ClassPool) : Pools :=
  match pool.pop with
  | some (id, rest) =>
      { pools with
        initialized := true
        classes := Function.update pools.classes cls (some rest)
        objects := Function.update pools.objects pools.next (some ⟨cls, some id, .ready, false⟩)
        next := pools.next + 1 }
  | none =>
      { pools with
        initialized := true
        objects := Function.update pools.objects pools.next (some ⟨cls, none, .limited, false⟩)
        next := pools.next + 1 }

/-- The inline `await` gives the id back, then `__await` lends the parent's id. -/
def await (pools : Pools) (target : Nat) (object : TaskObject) (parentId : Uid) : Pools :=
  { pools with
    classes := giveBack pools.classes object
    objects := Function.update pools.objects target
      (some { object with uniqueId := parentId, phase := .running, awaited := true }) }

/-- Both exits of `__await` write `EVENT_LOOP_ID` into the target. -/
def leaveAwait (pools : Pools) (target : Nat) (object : TaskObject) : Pools :=
  { pools with
    objects := Function.update pools.objects target
      (some { object with uniqueId := none, phase := .ended }) }

def setPhase (pools : Pools) (target : Nat) (object : TaskObject) (phase : Phase) : Pools :=
  { pools with
    objects := Function.update pools.objects target (some { object with phase := phase }) }

/-- One operation. A refused operation is one the interface excludes: initialising a
class twice or with 0 (both fatal), constructing a task of a class that was never
initialised (fatal), or an operation on a task that is not in the required phase. A class
that is initialised behind the first construction is excluded too, although the guard that
should refuse it does not. -/
def step (pools : Pools) : Op → Option Pools
  | .init cls maxTaskNum =>
      if pools.initialized ∨ (pools.classes cls).isSome ∨ maxTaskNum = 0 then none
      else some
        { pools with
          classes := Function.update pools.classes cls
            (some (ClassPool.initSetting pools.counter maxTaskNum))
          counter := pools.counter + maxTaskNum }
  | .construct cls => (pools.classes cls).map (construct pools cls)
  | .await target parent => do
      let object ← pools.objects target
      let caller ← pools.objects parent
      if (object.phase = .ready ∨ object.phase = .limited) ∧ caller.phase = .running then
        some (await pools target object caller.uniqueId)
      else none
  | .awaitReturn target => do
      let object ← pools.objects target
      if object.awaited ∧ object.phase = .running then some (leaveAwait pools target object)
      else none
  | .awaitInterrupt target => do
      let object ← pools.objects target
      if object.awaited ∧ object.phase = .running then some (leaveAwait pools target object)
      else none
  | .run target => do
      let object ← pools.objects target
      if object.phase = .ready then some (setPhase pools target object .running) else none
  | .finish target => do
      let object ← pools.objects target
      if ¬ object.awaited ∧ object.phase = .running then
        some (setPhase pools target object .ended)
      else none
  | .finishStarted target => do
      let object ← pools.objects target
      if ¬ object.awaited ∧ object.phase = .running then some (destruct pools target object)
      else none
  | .startLimited target => do
      let object ← pools.objects target
      if object.phase = .limited then some (destruct pools target object) else none
  | .destroy target => do
      let object ← pools.objects target
      if object.phase ≠ .running then some (destruct pools target object) else none

def heldAt (pools : Pools) (cls : Nat) (addr : Nat) : Option Nat :=
  (pools.objects addr).bind fun object => if object.cls = cls then object.owned else none

def ownedIds (pools : Pools) (cls : Nat) : List Nat :=
  (List.range pools.next).filterMap (heldAt pools cls)

structure Invariant (pools : Pools) : Prop where
  bounded : ∀ addr, pools.next ≤ addr → pools.objects addr = none
  registered : ∀ addr object, pools.objects addr = some object →
    (pools.classes object.cls).isSome
  untouched : ∀ addr object, pools.objects addr = some object →
    object.phase = .ready ∨ object.phase = .limited → object.awaited = false
  returned : ∀ addr object, pools.objects addr = some object →
    object.awaited = true → object.phase ≠ .running → object.uniqueId = none
  -- Free and held ids together are the class's range, each exactly once.
  exact : ∀ cls pool, pools.classes cls = some pool → pool.front ≤ pool.maxTaskNum ∧
    (pool.free ++ ownedIds pools cls).Perm (List.range' pool.first pool.maxTaskNum)
  below : ∀ cls pool, pools.classes cls = some pool →
    pool.first + pool.maxTaskNum ≤ pools.counter
  apart : ∀ cls other pool rest, pools.classes cls = some pool →
    pools.classes other = some rest → cls ≠ other →
    pool.first + pool.maxTaskNum ≤ rest.first ∨ rest.first + rest.maxTaskNum ≤ pool.first

theorem empty_invariant : Invariant empty := by
  constructor <;> simp [empty]

theorem giveBack_cases {classes : Nat → Option ClassPool} {object : TaskObject} {cls : Nat}
    {after : ClassPool} (present : giveBack classes object cls = some after) :
    ∃ before, classes cls = some before ∧
      (((if object.cls = cls then object.uniqueId else none) = none ∧ after = before) ∨
        ∃ id, object.uniqueId = some id ∧ object.cls = cls ∧ after = before.push id) := by
  unfold giveBack at present
  cases carried : object.uniqueId with
  | none =>
      simp only [carried] at present
      exact ⟨after, present, Or.inl ⟨by simp, rfl⟩⟩
  | some id =>
      simp only [carried] at present
      by_cases same : cls = object.cls
      · subst cls
        rw [Function.update_self] at present
        obtain ⟨before, found, rfl⟩ := Option.map_eq_some_iff.mp present
        exact ⟨before, found, Or.inr ⟨id, rfl, rfl, rfl⟩⟩
      · rw [Function.update_of_ne same] at present
        exact ⟨after, present, Or.inl ⟨if_neg (Ne.symm same), rfl⟩⟩

theorem giveBack_extent {classes : Nat → Option ClassPool} {object : TaskObject} {cls : Nat}
    {after : ClassPool} (present : giveBack classes object cls = some after) :
    ∃ before, classes cls = some before ∧ after.first = before.first ∧
      after.maxTaskNum = before.maxTaskNum := by
  obtain ⟨before, found, ⟨_, rfl⟩ | ⟨_, _, _, rfl⟩⟩ := giveBack_cases present
  · exact ⟨_, found, rfl, rfl⟩
  · exact ⟨before, found, rfl, rfl⟩

theorem giveBack_isSome {classes : Nat → Option ClassPool} {object : TaskObject} (cls : Nat) :
    (giveBack classes object cls).isSome = (classes cls).isSome := by
  unfold giveBack
  cases object.uniqueId with
  | none => rfl
  | some id =>
      by_cases same : cls = object.cls
      · subst cls
        simp
      · simp [Function.update_of_ne same]

theorem member_range {pools : Pools} (inv : Invariant pools) {addr : Nat} {object : TaskObject}
    (live : pools.objects addr = some object) : addr ∈ List.range pools.next := by
  apply List.mem_range.mpr
  by_contra outside
  rw [inv.bounded addr (Nat.le_of_not_lt outside)] at live
  cases live

theorem owned_kept {before after : Pools} (cls : Nat) (sameNext : after.next = before.next)
    (same : ∀ addr, heldAt after cls addr = heldAt before cls addr) :
    ownedIds after cls = ownedIds before cls := by
  unfold ownedIds
  rw [sameNext]
  exact collected_same _ _ _ fun addr _ => same addr

/-- The exchange behind both ways an id comes back: the object stops holding its id in the
very step that pushes it. -/
theorem surrender_exact {before after : Pools} (inv : Invariant before) {target : Nat}
    {object : TaskObject} (live : before.objects target = some object)
    (settled : object.uniqueId = object.owned)
    (sameNext : after.next = before.next)
    (classes : after.classes = giveBack before.classes object)
    (others : ∀ addr, addr ≠ target → after.objects addr = before.objects addr)
    (empty : ∀ cls, heldAt after cls target = none)
    (cls : Nat) (pool : ClassPool) (present : after.classes cls = some pool) :
    pool.front ≤ pool.maxTaskNum ∧
      (pool.free ++ ownedIds after cls).Perm (List.range' pool.first pool.maxTaskNum) := by
  rw [classes] at present
  obtain ⟨old, found, change⟩ := giveBack_cases present
  obtain ⟨inside, whole⟩ := inv.exact cls old found
  -- The held ids lose exactly what the target held in this class.
  have exchange : ((heldAt before cls target).toList ++ ownedIds after cls).Perm
      (ownedIds before cls) := by
    have swapped := collected_exchange (List.range before.next) target
      List.nodup_range (member_range inv live) (heldAt before cls) (heldAt after cls)
      (fun addr different => by simp only [heldAt, others addr different])
    rwa [empty cls, Option.toList_none, List.nil_append, ← ownedIds, ← sameNext,
      ← ownedIds] at swapped
  have heldTarget : heldAt before cls target =
      if object.cls = cls then object.uniqueId else none := by
    simp [heldAt, live, settled]
  rw [heldTarget] at exchange
  rcases change with ⟨nothing, rfl⟩ | ⟨id, carried, sameCls, rfl⟩
  · rw [nothing, Option.toList_none, List.nil_append] at exchange
    exact ⟨inside, (exchange.append_left _).trans whole⟩
  · have lower : (old.push id).front = old.front - 1 := rfl
    rw [if_pos sameCls, carried, Option.toList_some] at exchange
    refine ⟨by rw [lower]; change _ ≤ (old.maxTaskNum : Int); omega, ?_⟩
    rw [ClassPool.free_push old id inside]
    have moved : (id :: old.free ++ ownedIds after cls).Perm
        (old.free ++ ([id] ++ ownedIds after cls)) := by
      simpa using List.perm_middle.symm
    exact (moved.trans (exchange.append_left _)).trans whole

theorem surrender_invariant {pools : Pools} (inv : Invariant pools) {target : Nat}
    {object : TaskObject} (live : pools.objects target = some object)
    (settled : object.uniqueId = object.owned) (replacement : Option TaskObject)
    (lent : ∀ successor ∈ replacement, successor.cls = object.cls ∧
      successor.awaited = true ∧ successor.phase = .running) :
    Invariant { pools with
      classes := giveBack pools.classes object
      objects := Function.update pools.objects target replacement } := by
  constructor
  case bounded =>
      intro addr outside
      have different : addr ≠ target := by
        rintro rfl
        rw [inv.bounded addr outside] at live
        cases live
      change Function.update pools.objects target replacement addr = none
      rw [Function.update_of_ne different]
      exact inv.bounded addr outside
  case registered =>
      intro addr found present
      change (giveBack pools.classes object found.cls).isSome
      rw [giveBack_isSome]
      rcases update_some present with ⟨_, fresh⟩ | ⟨_, old⟩
      · rw [(lent found fresh).1]
        exact inv.registered target object live
      · exact inv.registered addr found old
  case untouched =>
      intro addr found present waiting
      rcases update_some present with ⟨_, fresh⟩ | ⟨_, old⟩
      · rw [(lent found fresh).2.2] at waiting
        simp at waiting
      · exact inv.untouched addr found old waiting
  case returned =>
      intro addr found present awaited idle
      rcases update_some present with ⟨_, fresh⟩ | ⟨_, old⟩
      · exact absurd (lent found fresh).2.2 idle
      · exact inv.returned addr found old awaited idle
  case exact =>
      refine surrender_exact inv live settled (by rfl) (by rfl) ?_ ?_
      · intro addr different
        exact Function.update_of_ne different _ _
      · intro cls
        simp only [heldAt, Function.update_self]
        cases replacement with
        | none => rfl
        | some successor => simp [TaskObject.owned, (lent successor rfl).2.1]
  case below =>
      intro cls pool present
      obtain ⟨old, found, firstEq, maxEq⟩ := giveBack_extent present
      have limit := inv.below cls old found
      rwa [firstEq, maxEq]
  case apart =>
      intro cls other pool rest present presentOther different
      obtain ⟨old, found, firstEq, maxEq⟩ := giveBack_extent present
      obtain ⟨oldOther, foundOther, firstOther, maxOther⟩ := giveBack_extent presentOther
      have separate := inv.apart cls other old oldOther found foundOther different
      rwa [firstEq, maxEq, firstOther, maxOther]

theorem relabel_invariant {pools : Pools} (inv : Invariant pools) {target : Nat}
    {object successor : TaskObject} (live : pools.objects target = some object)
    (sameCls : successor.cls = object.cls) (sameOwned : successor.owned = object.owned)
    (begun : successor.phase ≠ .ready ∧ successor.phase ≠ .limited)
    (cleared : successor.awaited = true → successor.phase ≠ .running →
      successor.uniqueId = none) :
    Invariant { pools with objects := Function.update pools.objects target (some successor) } := by
  have held : ∀ cls, ownedIds
      { pools with objects := Function.update pools.objects target (some successor) } cls =
      ownedIds pools cls := by
    intro cls
    refine owned_kept cls (by rfl) ?_
    intro addr
    by_cases same : addr = target
    · subst addr
      simp [heldAt, live, sameCls, sameOwned]
    · simp [heldAt, Function.update_of_ne same]
  constructor
  case bounded =>
      intro addr outside
      have different : addr ≠ target := by
        rintro rfl
        rw [inv.bounded addr outside] at live
        cases live
      change Function.update pools.objects target (some successor) addr = none
      rw [Function.update_of_ne different]
      exact inv.bounded addr outside
  case registered =>
      intro addr found present
      rcases update_some present with ⟨_, fresh⟩ | ⟨_, old⟩
      · obtain rfl := Option.some.inj fresh
        rw [sameCls]
        exact inv.registered target object live
      · exact inv.registered addr found old
  case untouched =>
      intro addr found present waiting
      rcases update_some present with ⟨_, fresh⟩ | ⟨_, old⟩
      · obtain rfl := Option.some.inj fresh
        exact (waiting.elim begun.1 begun.2).elim
      · exact inv.untouched addr found old waiting
  case returned =>
      intro addr found present awaited idle
      rcases update_some present with ⟨_, fresh⟩ | ⟨_, old⟩
      · obtain rfl := Option.some.inj fresh
        exact cleared awaited idle
      · exact inv.returned addr found old awaited idle
  case exact =>
      intro cls pool present
      rw [held cls]
      exact inv.exact cls pool present
  case below => exact inv.below
  case apart => exact inv.apart

theorem init_invariant {pools : Pools} (inv : Invariant pools) (cls maxTaskNum : Nat)
    (unset : pools.classes cls = none) :
    Invariant { pools with
      classes := Function.update pools.classes cls
        (some (ClassPool.initSetting pools.counter maxTaskNum))
      counter := pools.counter + maxTaskNum } := by
  -- No live task belongs to a class that has not been initialised.
  have nobody : ownedIds pools cls = [] := by
    apply List.filterMap_eq_nil_iff.mpr
    intro addr _
    cases live : pools.objects addr with
    | none => simp [heldAt, live]
    | some object =>
        have known := inv.registered addr object live
        have other : object.cls ≠ cls := by
          rintro rfl
          simp [unset] at known
        simp [heldAt, live, other]
  constructor
  case bounded => exact inv.bounded
  case registered =>
      intro addr object live
      have known := inv.registered addr object live
      change (Function.update pools.classes cls _ object.cls).isSome
      by_cases same : object.cls = cls
      · simp [same]
      · rwa [Function.update_of_ne same]
  case untouched => exact inv.untouched
  case returned => exact inv.returned
  case exact =>
      intro other pool present
      change pool.front ≤ _ ∧ (pool.free ++ ownedIds pools other).Perm _
      rcases update_some present with ⟨rfl, fresh⟩ | ⟨_, old⟩
      · obtain rfl := Option.some.inj fresh
        rw [nobody, List.append_nil, ClassPool.free_initSetting]
        refine ⟨?_, List.Perm.refl _⟩
        change (0 : Int) ≤ (maxTaskNum : Int)
        omega
      · exact inv.exact other pool old
  case below =>
      intro other pool present
      change _ ≤ pools.counter + maxTaskNum
      rcases update_some present with ⟨_, fresh⟩ | ⟨_, old⟩
      · obtain rfl := Option.some.inj fresh
        exact Nat.le_refl _
      · have limit := inv.below other pool old
        omega
  case apart =>
      intro left right pool rest presentLeft presentRight different
      rcases update_some presentLeft with ⟨rfl, fresh⟩ | ⟨_, oldLeft⟩
      · rcases update_some presentRight with ⟨rfl, _⟩ | ⟨_, oldRight⟩
        · exact absurd rfl different
        · obtain rfl := Option.some.inj fresh
          exact Or.inr (inv.below right rest oldRight)
      · rcases update_some presentRight with ⟨_, fresh⟩ | ⟨_, oldRight⟩
        · obtain rfl := Option.some.inj fresh
          exact Or.inl (inv.below left pool oldLeft)
        · exact inv.apart left right pool rest oldLeft oldRight different

theorem construct_invariant {pools : Pools} (inv : Invariant pools) {cls : Nat}
    {pool : ClassPool} (known : pools.classes cls = some pool) :
    Invariant (construct pools cls pool) := by
  have vacant : pools.objects pools.next = none := inv.bounded _ (Nat.le_refl _)
  obtain ⟨inside, whole⟩ := inv.exact cls pool known
  -- The two branches differ only in the pool that is left and the id that was taken.
  have general : ∀ (id : Uid) (phase : Phase) (rest : ClassPool),
      phase = .ready ∨ phase = .limited →
      rest.first = pool.first → rest.maxTaskNum = pool.maxTaskNum →
      rest.front ≤ rest.maxTaskNum → pool.free = id.toList ++ rest.free →
      Invariant { pools with
        initialized := true
        classes := Function.update pools.classes cls (some rest)
        objects := Function.update pools.objects pools.next (some ⟨cls, id, phase, false⟩)
        next := pools.next + 1 } := by
    intro id phase rest waiting firstEq maxEq front freeEq
    constructor
    case bounded =>
        intro addr outside
        change Function.update pools.objects pools.next _ addr = none
        have beyond : pools.next + 1 ≤ addr := outside
        rw [Function.update_of_ne (by omega)]
        exact inv.bounded addr (by omega)
    case registered =>
        intro addr object live
        change (Function.update pools.classes cls _ object.cls).isSome
        by_cases same : object.cls = cls
        · simp [same]
        · rw [Function.update_of_ne same]
          rcases update_some live with ⟨_, fresh⟩ | ⟨_, old⟩
          · obtain rfl := Option.some.inj fresh
            exact absurd rfl same
          · exact inv.registered addr object old
    case untouched =>
        intro addr object live untouched
        rcases update_some live with ⟨_, fresh⟩ | ⟨_, old⟩
        · obtain rfl := Option.some.inj fresh
          rfl
        · exact inv.untouched addr object old untouched
    case returned =>
        intro addr object live awaited idle
        rcases update_some live with ⟨_, fresh⟩ | ⟨_, old⟩
        · obtain rfl := Option.some.inj fresh
          cases awaited
        · exact inv.returned addr object old awaited idle
    case exact =>
        intro other found present
        have heldOld : ∀ addr ∈ List.range pools.next, heldAt
            { pools with
              initialized := true
              classes := Function.update pools.classes cls (some rest)
              objects := Function.update pools.objects pools.next (some ⟨cls, id, phase, false⟩)
              next := pools.next + 1 } other addr = heldAt pools other addr := by
          intro addr member
          have different : addr ≠ pools.next := by
            have := List.mem_range.mp member
            omega
          simp [heldAt, Function.update_of_ne different]
        have grown : ownedIds
            { pools with
              initialized := true
              classes := Function.update pools.classes cls (some rest)
              objects := Function.update pools.objects pools.next (some ⟨cls, id, phase, false⟩)
              next := pools.next + 1 } other =
            ownedIds pools other ++ (if cls = other then id else none).toList := by
          unfold ownedIds
          simp only [List.range_succ, List.filterMap_append]
          rw [collected_same _ _ _ heldOld]
          congr 1
          by_cases same : cls = other
          · cases id <;> simp [heldAt, same, TaskObject.owned]
          · simp [heldAt, same]
        rw [grown]
        rcases update_some present with ⟨rfl, fresh⟩ | ⟨different, old⟩
        · obtain rfl := Option.some.inj fresh
          refine ⟨front, ?_⟩
          rw [if_pos rfl, firstEq, maxEq]
          refine List.Perm.trans ?_ whole
          rw [freeEq, List.append_assoc, ← List.append_assoc]
          exact List.perm_append_comm
        · rw [if_neg (Ne.symm different), Option.toList_none, List.append_nil]
          exact inv.exact other found old
    case below =>
        intro other found present
        rcases update_some present with ⟨_, fresh⟩ | ⟨_, old⟩
        · obtain rfl := Option.some.inj fresh
          rw [firstEq, maxEq]
          exact inv.below cls pool known
        · exact inv.below other found old
    case apart =>
        intro left right leftPool rightPool presentLeft presentRight different
        rcases update_some presentLeft with ⟨rfl, fresh⟩ | ⟨_, oldLeft⟩
        · rcases update_some presentRight with ⟨rfl, _⟩ | ⟨_, oldRight⟩
          · exact absurd rfl different
          · obtain rfl := Option.some.inj fresh
            rw [firstEq, maxEq]
            exact inv.apart _ right pool rightPool known oldRight different
        · rcases update_some presentRight with ⟨rfl, fresh⟩ | ⟨_, oldRight⟩
          · obtain rfl := Option.some.inj fresh
            rw [firstEq, maxEq]
            exact inv.apart left _ leftPool pool oldLeft known different
          · exact inv.apart left right leftPool rightPool oldLeft oldRight different
  unfold construct
  cases taken : pool.pop with
  | none =>
      have unchanged : Function.update pools.classes cls (some pool) = pools.classes := by
        rw [← known, Function.update_eq_self]
      have result := general none .limited pool (Or.inr rfl) rfl rfl inside rfl
      rwa [unchanged] at result
  | some pair =>
      obtain ⟨id, rest⟩ := pair
      obtain ⟨front, firstEq, maxEq⟩ := ClassPool.pop_front pool rest id inside taken
      exact general (some id) .ready rest (Or.inl rfl) firstEq maxEq front
        (ClassPool.free_pop pool rest id inside taken)

theorem bind_if_some {α β : Type} {source : Option α} {allowed : α → Prop}
    [DecidablePred allowed] {result : α → β} {value : β}
    (taken : (source.bind fun found => if allowed found then some (result found) else none) =
      some value) : ∃ found, source = some found ∧ allowed found ∧ result found = value := by
  obtain ⟨found, present, branch⟩ := Option.bind_eq_some_iff.mp taken
  by_cases admitted : allowed found
  · rw [if_pos admitted] at branch
    exact ⟨found, present, admitted, Option.some.inj branch⟩
  · rw [if_neg admitted] at branch
    cases branch

theorem owned_fresh {object : TaskObject} (fresh : object.awaited = false) :
    object.uniqueId = object.owned := by
  simp [TaskObject.owned, fresh]

theorem owned_released {object : TaskObject} (awaited : object.awaited = true)
    (cleared : object.uniqueId = none) : object.uniqueId = object.owned := by
  simp [TaskObject.owned, awaited, cleared]

/-- One lemma per kind of step: an id moves between a pool and an object, or an object
changes while every id stays where it is. -/
theorem step_invariant (pools : Pools) (op : Op) (after : Pools) (inv : Invariant pools)
    (taken : step pools op = some after) : Invariant after := by
  cases op with
  | init cls maxTaskNum =>
      simp only [step] at taken
      split at taken
      · cases taken
      · rename_i refused
        have unset : pools.classes cls = none := by
          cases present : pools.classes cls with
          | none => rfl
          | some pool => simp [present] at refused
        cases taken
        exact init_invariant inv cls maxTaskNum unset
  | construct cls =>
      obtain ⟨pool, known, rfl⟩ := Option.map_eq_some_iff.mp taken
      exact construct_invariant inv known
  | await target parent =>
      obtain ⟨object, live, rest⟩ := Option.bind_eq_some_iff.mp taken
      obtain ⟨caller, _, admitted, rfl⟩ := bind_if_some rest
      refine surrender_invariant inv live
        (owned_fresh (inv.untouched target object live admitted.1)) _ ?_
      intro successor same
      obtain rfl := Option.some.inj same
      exact ⟨rfl, rfl, rfl⟩
  | awaitReturn target | awaitInterrupt target =>
      obtain ⟨object, live, admitted, rfl⟩ := bind_if_some taken
      refine relabel_invariant inv live rfl ?_ (by simp) (fun _ _ => rfl)
      simp [TaskObject.owned, admitted.1]
  | run target =>
      obtain ⟨object, live, admitted, rfl⟩ := bind_if_some taken
      refine relabel_invariant inv live rfl rfl (by simp) ?_
      intro _ idle
      exact absurd rfl idle
  | finish target =>
      obtain ⟨object, live, admitted, rfl⟩ := bind_if_some taken
      refine relabel_invariant inv live rfl rfl (by simp) ?_
      intro awaited _
      exact absurd awaited admitted.1
  | finishStarted target =>
      obtain ⟨object, live, admitted, rfl⟩ := bind_if_some taken
      exact surrender_invariant inv live (owned_fresh (by simpa using admitted.1)) none (by simp)
  | startLimited target =>
      obtain ⟨object, live, admitted, rfl⟩ := bind_if_some taken
      exact surrender_invariant inv live
        (owned_fresh (inv.untouched target object live (Or.inr admitted))) none (by simp)
  | destroy target =>
      obtain ⟨object, live, admitted, rfl⟩ := bind_if_some taken
      refine surrender_invariant inv live ?_ none (by simp)
      cases awaited : object.awaited with
      | false => exact owned_fresh awaited
      | true => exact owned_released awaited (inv.returned target object live awaited admitted)

theorem held_in_range {pools : Pools} (inv : Invariant pools) {addr id : Nat}
    {object : TaskObject} (live : pools.objects addr = some object)
    (held : object.owned = some id) {pool : ClassPool}
    (known : pools.classes object.cls = some pool) :
    id ∈ ownedIds pools object.cls ∧ pool.first ≤ id ∧ id < pool.first + pool.maxTaskNum := by
  have member : id ∈ ownedIds pools object.cls := by
    apply List.mem_filterMap.mpr
    exact ⟨addr, member_range inv live, by simp [heldAt, live, held]⟩
  have ranged := (inv.exact object.cls pool known).2.mem_iff.mp
    (List.mem_append_right pool.free member)
  rw [List.mem_range'_1] at ranged
  exact ⟨member, ranged⟩

theorem books_exact {pools : Pools} (inv : Invariant pools) {cls : Nat} {pool : ClassPool}
    (known : pools.classes cls = some pool) :
    pool.free.Nodup ∧
    (∀ id ∈ pool.free, pool.first ≤ id ∧ id < pool.first + pool.maxTaskNum) ∧
    (∀ addr object id, pools.objects addr = some object → object.owned = some id →
      id ∉ pool.free) ∧
    (ownedIds pools cls).Nodup ∧
    pool.free.length + (ownedIds pools cls).length = pool.maxTaskNum ∧
    0 ≤ pool.front ∧ pool.front ≤ pool.maxTaskNum := by
  obtain ⟨inside, whole⟩ := inv.exact cls pool known
  have unique : (pool.free ++ ownedIds pools cls).Nodup :=
    whole.nodup_iff.mpr (List.nodup_range' 1)
  have total : pool.free.length + (ownedIds pools cls).length = pool.maxTaskNum := by
    simpa using whole.length_eq
  have ranged : ∀ id ∈ pool.free, pool.first ≤ id ∧ id < pool.first + pool.maxTaskNum := by
    intro id member
    have found := whole.mem_iff.mp (List.mem_append_left _ member)
    rwa [List.mem_range'_1] at found
  refine ⟨unique.of_append_left, ranged, ?_, unique.of_append_right, total, ?_, inside⟩
  · intro addr object id live held member
    obtain ⟨other, knownOther⟩ := Option.isSome_iff_exists.mp (inv.registered addr object live)
    obtain ⟨owned, lower, upper⟩ := held_in_range inv live held knownOther
    by_cases same : object.cls = cls
    · subst cls
      exact (List.disjoint_of_nodup_append unique) member owned
    · -- Another class: its range does not meet this one.
      have separate := inv.apart object.cls cls other pool knownOther known same
      have bounds := ranged id member
      omega
  · have extent := ClassPool.free_length pool
    omega

/-- Along every sequence of operations, each class's free list holds distinct ids of the
class's own range, none of them held by a live task of any class, free and held ids
together are exactly `max_task_num`, and the front pointer stays inside the array. -/
theorem free_list_exact (ops : List Op) (pools : Pools)
    (run : replay step empty ops = some pools) (cls : Nat) (pool : ClassPool)
    (known : pools.classes cls = some pool) :
    pool.free.Nodup ∧
    (∀ id ∈ pool.free, pool.first ≤ id ∧ id < pool.first + pool.maxTaskNum) ∧
    (∀ addr object id, pools.objects addr = some object → object.owned = some id →
      id ∉ pool.free) ∧
    (ownedIds pools cls).Nodup ∧
    pool.free.length + (ownedIds pools cls).length = pool.maxTaskNum ∧
    0 ≤ pool.front ∧ pool.front ≤ pool.maxTaskNum :=
  books_exact (replay_always Invariant step_invariant empty_invariant run) known

/-- Two classes, a nested await across them, an interrupted await, a deleted started task. -/
def mixedOps : List Op :=
  [.init 0 2, .init 1 1, .construct 0, .run 0, .construct 1, .construct 1, .await 1 0,
    .construct 0, .await 3 1, .awaitInterrupt 3, .awaitReturn 1, .destroy 3, .destroy 1,
    .startLimited 2, .construct 0, .run 4, .finishStarted 4]

theorem free_list_exact_mixed :
    ∃ pools pool, replay step empty mixedOps = some pools ∧ pools.classes 0 = some pool ∧
      pool.free = [1] ∧ pool.free.length + (ownedIds pools 0).length = 2 ∧
      pool.maxTaskNum = 2 := by
  have evaluated : ((replay step empty mixedOps).bind (·.classes 0)).map
      (fun pool => (pool.free, pool.maxTaskNum)) = some ([1], 2) := by decide
  obtain ⟨pool, found, values⟩ := Option.map_eq_some_iff.mp evaluated
  obtain ⟨pools, run, known⟩ := Option.bind_eq_some_iff.mp found
  have free : pool.free = [1] := congrArg Prod.fst values
  have size : pool.maxTaskNum = 2 := congrArg Prod.snd values
  have counted := (free_list_exact mixedOps pools run 0 pool known).2.2.2.2.1
  rw [size] at counted
  exact ⟨pools, pool, run, known, free, counted, size⟩

end Cocoflow.TaskPool
