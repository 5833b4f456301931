import Mathlib.Algebra.Ring.Nat
import Mathlib.Data.List.Basic
import Mathlib.Data.List.Range
import Mathlib.Logic.Function.Basic
import Cocoflow.LabelledRuns
import Cocoflow.PointUpdates
import Cocoflow.TaskPool

/-!
The tables that are indexed by task ids (include/cocoflow.h and src/cocoflow.cc). `__init` sizes
them when the first task of any class is constructed, and `init` gives a class its ids. Both guards
of `init` read the flag of its own class, so a class can be initialised behind `__init`; its ids
are then outside the tables.
-/

namespace Cocoflow.TaskTables

open LabelledRuns PointUpdates TaskPool

def pageSize : Nat := 4096

/-- An instance of the template `task<UserPages, ProtectPages>`. -/
structure TaskClass where
  userPages : Nat
  protectPages : Nat
  deriving DecidableEq

/-- `STACK_SIZE`; the pages are `uint32`. -/
def TaskClass.stackSize (cls : TaskClass) : Nat :=
  (cls.userPages + cls.protectPages) % 2 ^ 32 * pageSize

def TaskClass.protectSize (cls : TaskClass) : Nat := cls.protectPages * pageSize

structure Setting where
  stackSize : Nat
  protectSize : Nat
  maxTaskNum : Nat

/-- `global_task_manager` and `global_running_manager` have `size` cells; `created` are the ids for
which `__init` has called `coroutine_create`. -/
structure Tables where
  size : Nat
  created : List Nat
  deriving DecidableEq

/-- `pools` has the classes whose `initialized` is set, and `tables` is there when
`global_initialized` is set. `handed` records the ids that constructors have handed out. -/
structure Runtime where
  pools : TaskClass → Option ClassPool := fun _ => none
  settings : List Setting := []
  gMaxTaskNum : Nat := 0
  tables : Option Tables := none
  handed : List Nat := []

/-- The ids are a `uint32` that is counted up. -/
def ids (counter maxTaskNum : Nat) : List Nat :=
  (List.range maxTaskNum).map fun offset => (counter + offset) % 2 ^ 32

def freeList (counter maxTaskNum : Nat) : ClassPool where
  first := counter
  maxTaskNum := maxTaskNum
  cells := fun offset => (counter + offset.toNat) % 2 ^ 32
  front := 0

def createAll (uniqueId : Nat) : List Setting → List Nat
  | [] => []
  | setting :: rest =>
      ids uniqueId setting.maxTaskNum ++
        createAll ((uniqueId + setting.maxTaskNum) % 2 ^ 32) rest

namespace Runtime

def allocation (runtime : Runtime) : Tables :=
  ⟨runtime.gMaxTaskNum, createAll 0 runtime.settings⟩

def initSetting (runtime : Runtime) (cls : TaskClass) (stackSize protectSize maxTaskNum : Nat) :
    Runtime :=
  { runtime with
    pools := Function.update runtime.pools cls (some (freeList runtime.gMaxTaskNum maxTaskNum))
    settings := runtime.settings ++ [⟨stackSize, protectSize, maxTaskNum⟩]
    gMaxTaskNum := (runtime.gMaxTaskNum + maxTaskNum) % 2 ^ 32 }

/-- `task::init`. The first two guards are one: `initialized` is the flag of the class in both.
The sizes are passed on as `uint32`. -/
def init (runtime : Runtime) (cls : TaskClass) (maxTaskNum : UInt32) : Option Runtime :=
  if (runtime.pools cls).isSome then none
  else if maxTaskNum = 0 then none
  else some (runtime.initSetting cls (cls.stackSize % 2 ^ 32) (cls.protectSize % 2 ^ 32)
    maxTaskNum.toNat)

/-- `__init`, which is fatal when the maps or the memory do not suffice. -/
def initTables (enough : List Setting → Bool) (runtime : Runtime) : Option Runtime :=
  if enough runtime.settings then some { runtime with tables := some runtime.allocation }
  else none

def construct (enough : List Setting → Bool) (runtime : Runtime) (cls : TaskClass) :
    Option Runtime :=
  (if runtime.tables.isNone then runtime.initTables enough else some runtime).bind fun runtime =>
    (runtime.pools cls).map fun pool =>
      match pool.pop with
      | some (id, rest) => { runtime with
          pools := Function.update runtime.pools cls (some rest)
          handed := runtime.handed ++ [id] }
      | none => runtime

/-- The destructor and the inline `await` put the id that a task shows on the list of its class.
It is an id that was handed out, not always to a task of this class. -/
def giveBack (runtime : Runtime) (cls : TaskClass) (id : Nat) : Option Runtime :=
  if id ∈ runtime.handed then
    (runtime.pools cls).map fun pool =>
      { runtime with pools := Function.update runtime.pools cls (some (pool.push id)) }
  else none

end Runtime

inductive Label where
  | init (cls : TaskClass) (maxTaskNum : UInt32)
  | construct (cls : TaskClass)
  | giveBack (cls : TaskClass) (id : Nat)

def step (enough : List Setting → Bool) (runtime : Runtime) : Label → Option Runtime
  | .init cls maxTaskNum => runtime.init cls maxTaskNum
  | .construct cls => runtime.construct enough cls
  | .giveBack cls id => runtime.giveBack cls id

/-- The tables that a constructor finds: those that exist, or those that it lets `__init`
allocate. -/
def found (runtime : Runtime) : Tables := runtime.tables.getD runtime.allocation

/-- Every id on a free list has its cell in the tables, and its coroutine. -/
def Covered (runtime : Runtime) : Prop :=
  ∀ cls pool, runtime.pools cls = some pool → ∀ id ∈ pool.free,
    id < (found runtime).size ∧ id ∈ (found runtime).created

def total (settings : List Setting) : Nat := (settings.map Setting.maxTaskNum).sum

/-- No class is initialised behind `__init`, or beyond the range of the ids. -/
def InTime (runtime : Runtime) : Label → Prop
  | .init _ maxTaskNum =>
      runtime.tables = none ∧ total runtime.settings + maxTaskNum.toNat < 2 ^ 32
  | _ => True

instance (runtime : Runtime) : (label : Label) → Decidable (InTime runtime label)
  | .init _ maxTaskNum => inferInstanceAs (Decidable
      (runtime.tables = none ∧ total runtime.settings + maxTaskNum.toNat < 2 ^ 32))
  | .construct _ | .giveBack _ _ => isTrue trivial

structure Sized (runtime : Runtime) : Prop where
  range : total runtime.settings < 2 ^ 32
  counter : runtime.gMaxTaskNum = total runtime.settings
  tables : ∀ tables, runtime.tables = some tables → tables = runtime.allocation
  pools : ∀ cls pool, runtime.pools cls = some pool → pool.front ≤ pool.maxTaskNum ∧
    ∀ id ∈ pool.free, id < total runtime.settings
  handed : ∀ id ∈ runtime.handed, id < total runtime.settings

section Ids

theorem ids_below {counter maxTaskNum : Nat} (small : counter + maxTaskNum < 2 ^ 32) (id : Nat) :
    id ∈ ids counter maxTaskNum ↔ counter ≤ id ∧ id < counter + maxTaskNum := by
  simp only [ids, List.mem_map, List.mem_range]
  constructor
  · rintro ⟨offset, inside, rfl⟩
    omega
  · rintro ⟨lower, upper⟩
    exact ⟨id - counter, by omega, by omega⟩

theorem free_freeList (counter maxTaskNum : Nat) :
    (freeList counter maxTaskNum).free = ids counter maxTaskNum := by
  have extent : ((maxTaskNum : Int) - 0).toNat = maxTaskNum := by omega
  simp only [ClassPool.free, freeList, extent, ids]
  apply List.map_congr_left
  intro i _
  have offset : ((0 : Int) + (i : Int)).toNat = i := by omega
  rw [offset]

theorem first_free {counter maxTaskNum : Nat} (positive : 0 < maxTaskNum) :
    counter % 2 ^ 32 ∈ (freeList counter maxTaskNum).free := by
  rw [free_freeList]
  exact List.mem_map.mpr ⟨0, List.mem_range.mpr positive, rfl⟩

theorem mem_createAll (settings : List Setting) (uniqueId id : Nat)
    (small : uniqueId + total settings < 2 ^ 32) (lower : uniqueId ≤ id)
    (upper : id < uniqueId + total settings) : id ∈ createAll uniqueId settings := by
  induction settings generalizing uniqueId with
  | nil =>
      simp only [total, List.map_nil, List.sum_nil] at upper
      omega
  | cons setting rest ih =>
      have sum : total (setting :: rest) = setting.maxTaskNum + total rest := by
        simp [total]
      rw [sum] at small upper
      have next : (uniqueId + setting.maxTaskNum) % 2 ^ 32 = uniqueId + setting.maxTaskNum :=
        Nat.mod_eq_of_lt (by omega)
      rw [createAll, next, List.mem_append]
      by_cases here : id < uniqueId + setting.maxTaskNum
      · exact Or.inl ((ids_below (by omega) id).mpr ⟨lower, here⟩)
      · exact Or.inr (ih _ (by omega) (by omega) (by omega))

theorem total_snoc (settings : List Setting) (setting : Setting) :
    total (settings ++ [setting]) = total settings + setting.maxTaskNum := by
  simp [total]

end Ids

section Steps

variable {enough : List Setting → Bool} {runtime next : Runtime}

theorem found_of_sized (sized : Sized runtime) : found runtime = runtime.allocation := by
  unfold found
  cases present : runtime.tables with
  | none => rfl
  | some tables => exact sized.tables tables present

theorem covered_of_sized (sized : Sized runtime) : Covered runtime := by
  intro cls pool present id free
  have below := (sized.pools cls pool present).2 id free
  rw [found_of_sized sized]
  constructor
  · show id < runtime.gMaxTaskNum
    rw [sized.counter]
    exact below
  · have range := sized.range
    exact mem_createAll runtime.settings 0 id (by omega) (Nat.zero_le id) (by omega)

theorem init_cases {cls : TaskClass} {maxTaskNum : UInt32}
    (taken : runtime.init cls maxTaskNum = some next) :
    0 < maxTaskNum.toNat ∧ ∃ stackSize protectSize,
      next = runtime.initSetting cls stackSize protectSize maxTaskNum.toNat := by
  unfold Runtime.init at taken
  split at taken
  · cases taken
  · split at taken
    · cases taken
    · rename_i some_
      cases taken
      refine ⟨?_, _, _, rfl⟩
      exact Nat.pos_of_ne_zero fun zero => some_ (UInt32.toNat_inj.mp zero)

theorem sized_init {cls : TaskClass} {stackSize protectSize maxTaskNum : Nat}
    (sized : Sized runtime) (early : runtime.tables = none)
    (small : total runtime.settings + maxTaskNum < 2 ^ 32) :
    Sized (runtime.initSetting cls stackSize protectSize maxTaskNum) := by
  have sum : total (runtime.initSetting cls stackSize protectSize maxTaskNum).settings =
      total runtime.settings + maxTaskNum := total_snoc ..
  constructor
  case range =>
      rw [sum]
      exact small
  case counter =>
      rw [sum]
      show (runtime.gMaxTaskNum + maxTaskNum) % 2 ^ 32 = _
      rw [sized.counter, Nat.mod_eq_of_lt small]
  case tables =>
      intro tables present
      have none_ : runtime.tables = some tables := present
      rw [early] at none_
      cases none_
  case pools =>
      intro other pool present
      rw [sum]
      rcases update_some present with ⟨-, fresh⟩ | ⟨-, old⟩
      · cases fresh
        refine ⟨Int.natCast_nonneg _, fun id free => ?_⟩
        rw [free_freeList, sized.counter, ids_below small] at free
        exact free.2
      · obtain ⟨inside, below⟩ := sized.pools other pool old
        exact ⟨inside, fun id free => Nat.lt_of_lt_of_le (below id free) (Nat.le_add_right _ _)⟩
  case handed =>
      intro id known
      rw [sum]
      exact Nat.lt_of_lt_of_le (sized.handed id known) (Nat.le_add_right _ _)

/-- Ids that a class gets too late, or beyond the range, have no cell: its first one is as large
as the tables at least. -/
theorem uncovered_init {cls : TaskClass} {stackSize protectSize maxTaskNum : Nat}
    (sized : Sized runtime) (positive : 0 < maxTaskNum) (bound : maxTaskNum < 2 ^ 32)
    (late : ¬(runtime.tables = none ∧ total runtime.settings + maxTaskNum < 2 ^ 32)) :
    ¬Covered (runtime.initSetting cls stackSize protectSize maxTaskNum) := by
  intro covered
  have range := sized.range
  have counter := sized.counter
  have first := (covered cls _ (Function.update_self ..) _ (first_free positive)).1
  rw [counter, Nat.mod_eq_of_lt range] at first
  cases present : runtime.tables with
  | some tables =>
      have size : found (runtime.initSetting cls stackSize protectSize maxTaskNum) = tables := by
        show Option.getD runtime.tables _ = tables
        rw [present]
        rfl
      rw [size, sized.tables tables present] at first
      have same : runtime.allocation.size = total runtime.settings := counter
      omega
  | none =>
      have wraps : 2 ^ 32 ≤ total runtime.settings + maxTaskNum :=
        Nat.le_of_not_lt fun small => late ⟨present, small⟩
      have size : (found (runtime.initSetting cls stackSize protectSize maxTaskNum)).size =
          (total runtime.settings + maxTaskNum) % 2 ^ 32 := by
        rw [← counter]
        show (Option.getD runtime.tables _).size = _
        rw [present]
        rfl
      omega

theorem sized_initTables (sized : Sized runtime)
    (taken : runtime.initTables enough = some next) : Sized next := by
  unfold Runtime.initTables at taken
  split at taken
  · cases taken
    refine ⟨sized.range, sized.counter, ?_, sized.pools, sized.handed⟩
    intro tables present
    exact (Option.some.inj present).symm
  · cases taken

theorem sized_construct {cls : TaskClass} (sized : Sized runtime)
    (taken : runtime.construct enough cls = some next) : Sized next := by
  obtain ⟨started, begun, rest⟩ := Option.bind_eq_some_iff.mp taken
  have kept : Sized started := by
    split at begun
    · exact sized_initTables sized begun
    · cases begun
      exact sized
  obtain ⟨pool, present, rfl⟩ := Option.map_eq_some_iff.mp rest
  obtain ⟨inside, below⟩ := kept.pools cls pool present
  split
  · rename_i id left popped
    have free := ClassPool.free_pop pool left id inside popped
    rw [free] at below
    refine ⟨kept.range, kept.counter, kept.tables, ?_, ?_⟩
    · intro other found present
      rcases update_some present with ⟨-, fresh⟩ | ⟨-, old⟩
      · cases fresh
        exact ⟨(ClassPool.pop_front pool left id inside popped).1,
          fun other free => below other (List.mem_cons_of_mem id free)⟩
      · exact kept.pools other found old
    · intro other known
      rcases List.mem_append.mp known with before | last
      · exact kept.handed other before
      · rw [List.mem_singleton.mp last]
        exact below id List.mem_cons_self
  · exact kept

theorem sized_giveBack {cls : TaskClass} {id : Nat} (sized : Sized runtime)
    (taken : runtime.giveBack cls id = some next) : Sized next := by
  unfold Runtime.giveBack at taken
  split at taken
  · rename_i known
    obtain ⟨pool, present, rfl⟩ := Option.map_eq_some_iff.mp taken
    obtain ⟨inside, below⟩ := sized.pools cls pool present
    refine ⟨sized.range, sized.counter, sized.tables, ?_, sized.handed⟩
    intro other found present
    rcases update_some present with ⟨-, fresh⟩ | ⟨-, old⟩
    · cases fresh
      refine ⟨?_, fun member free => ?_⟩
      · show pool.front - 1 ≤ (pool.maxTaskNum : Int)
        omega
      · rw [ClassPool.free_push pool id inside] at free
        rcases List.mem_cons.mp free with rfl | before
        · exact sized.handed member known
        · exact below member before
    · exact sized.pools other found old
  · cases taken

theorem sized_step (runtime : Runtime) (label : Label) (next : Runtime) (sized : Sized runtime)
    (admitted : InTime runtime label) (taken : step enough runtime label = some next) :
    Sized next := by
  cases label with
  | init cls maxTaskNum =>
      obtain ⟨-, stackSize, protectSize, rfl⟩ := init_cases taken
      exact sized_init sized admitted.1 admitted.2
  | construct cls => exact sized_construct sized taken
  | giveBack cls id => exact sized_giveBack sized taken

theorem covered_iff (runtime : Runtime) (label : Label) (next : Runtime) (sized : Sized runtime)
    (taken : step enough runtime label = some next) :
    Covered next ↔ InTime runtime label := by
  constructor
  · intro covered
    cases label with
    | init cls maxTaskNum =>
        obtain ⟨positive, stackSize, protectSize, rfl⟩ := init_cases taken
        by_contra late
        exact uncovered_init sized positive maxTaskNum.toNat_lt late covered
    | construct cls => exact trivial
    | giveBack cls id => exact trivial
  · intro admitted
    exact covered_of_sized (sized_step runtime label next sized admitted taken)

end Steps

theorem sized_new : Sized {} := by
  constructor <;> simp [total]

/-- In every state of a run the ids that a constructor can hand out have their cells and their
coroutines, exactly when every class is initialised before the first construction and the numbers
add up to less than 2 ^ 32. -/
theorem ids_covered_iff (enough : List Setting → Bool) (labels : List Label) (last : Runtime)
    (run : replay (step enough) {} labels = some last) :
    Throughout (step enough) Covered {} labels ↔ Along (step enough) InTime {} labels := by
  apply throughout_iff_along Sized Covered _ _ sized_new (covered_of_sized sized_new) run
  · intro runtime label next sized _ taken covered
    exact sized_step runtime label next sized
      ((covered_iff runtime label next sized taken).mp covered) taken
  · intro runtime label next sized _ taken
    exact covered_iff runtime label next sized taken

def early : List Label :=
  [.init ⟨7, 1⟩ 2, .init ⟨15, 1⟩ 1, .construct ⟨7, 1⟩, .construct ⟨15, 1⟩, .giveBack ⟨7, 1⟩ 0,
    .construct ⟨7, 1⟩]

theorem ids_covered_early :
    (replay (step fun _ => true) {} early).isSome ∧
      Throughout (step fun _ => true) Covered {} early := by
  have running : (replay (step fun _ => true) {} early).isSome := by decide
  refine ⟨running, ?_⟩
  exact (ids_covered_iff _ early _ (Option.some_get running).symm).mpr (by decide)

/-- A class that is initialised behind the first construction of another one gets the id 1, and
the tables have one cell. -/
theorem late_uncovered : ¬∀ (labels : List Label) (last : Runtime),
    replay (step fun _ => true) {} labels = some last →
      Throughout (step fun _ => true) Covered {} labels := by
  intro claimed
  have running : (replay (step fun _ => true) {}
      [.init ⟨7, 1⟩ 1, .construct ⟨7, 1⟩, .init ⟨15, 1⟩ 1]).isSome := by decide
  have covered := (claimed _ _ (Option.some_get running).symm).2.2.2
  have cell := (covered ⟨15, 1⟩ _ rfl 1 (by decide)).1
  exact absurd cell (by decide)

end Cocoflow.TaskTables
