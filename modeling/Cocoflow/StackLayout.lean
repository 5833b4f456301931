import Mathlib.Data.List.Range
import Mathlib.Logic.Function.Basic
import Mathlib.Logic.Function.Iterate
import Cocoflow.IntervalTiling
import Cocoflow.LabelledRuns
import Cocoflow.TaskPool
import Cocoflow.TaskTables

/-!
The stacks of the tasks (src/cocoflow.cc). `__init_setting` counts the ids and the bytes while the
classes are initialised; `__init` walks once more over the settings and cuts one mapping into the
stacks. `cur_mem` is kept as the distance from the start of the mapping.
-/

namespace Cocoflow.StackLayout

open IntervalTiling LabelledRuns TaskTables
open TaskPool (ClassPool)

structure Initialisation where
  cls : TaskClass
  setting : Setting

/-- The globals that `__init_setting` writes. -/
structure Startup where
  runtime : Runtime := {}
  gMaxStackSize : Nat := 0

def Startup.initSetting (startup : Startup) (initialisation : Initialisation) : Startup where
  runtime := startup.runtime.initSetting initialisation.cls initialisation.setting.stackSize
    initialisation.setting.protectSize initialisation.setting.maxTaskNum
  gMaxStackSize := (startup.gMaxStackSize +
    initialisation.setting.stackSize * initialisation.setting.maxTaskNum) % 2 ^ 64

/-- The stack that `coroutine_create` gets for an id. `protectSize` bytes at its start have been
protected, if any. -/
structure Segment where
  id : Nat
  start : Nat
  size : Nat
  protectSize : Nat
  deriving DecidableEq

/-- The local variables of `__init`, and what it has created. -/
structure Walk where
  uniqueId : Nat := 0
  curMem : Nat := 0
  created : List Segment := []

namespace Walk

end Walk

namespace Segment

def range (segment : Segment) : Set Nat := Set.Ico segment.start (segment.start + segment.size)

def protectedRange (segment : Segment) : Set Nat :=
  Set.Ico segment.start (segment.start + segment.protectSize)

def ends (segment : Segment) : Nat × Nat := (segment.start, segment.start + segment.size)

end Segment

def freeIds (runtime : Runtime) (cls : TaskClass) : List Nat :=
  (runtime.pools cls).elim [] ClassPool.free

/-- The ids of the classes and the stacks fit together. -/
structure Fits (initialisations : List Initialisation) (startup : Startup) (walk : Walk) :
    Prop where
  partition : initialisations.flatMap (fun each => freeIds startup.runtime each.cls) =
    List.range startup.runtime.gMaxTaskNum
  stacked : walk.created.map Segment.id = List.range startup.runtime.gMaxTaskNum
  own : ∀ each ∈ initialisations, ∀ id ∈ freeIds startup.runtime each.cls,
    ∃! segment, segment ∈ walk.created ∧ segment.id = id ∧
      segment.size = each.setting.stackSize ∧ segment.protectSize = each.setting.protectSize
  guarded : ∀ segment ∈ walk.created, segment.protectedRange ⊆ segment.range
  apart : walk.created.Pairwise fun first second =>
    ∀ address ∈ first.range, address ∉ second.range
  tiled : ∀ address, address < startup.gMaxStackSize ↔
    ∃ segment ∈ walk.created, address ∈ segment.range
  used : walk.curMem = startup.gMaxStackSize

section Initialising

end Initialising

section Walking

def block (uniqueId curMem : Nat) (setting : Setting) (count : Nat) : List Segment :=
  (List.range count).map fun offset =>
    ⟨uniqueId + offset, curMem + setting.stackSize * offset, setting.stackSize,
      setting.protectSize⟩

end Walking

section Agreement

end Agreement

section Requests

variable {enough : List Setting → Bool}

end Requests

end Cocoflow.StackLayout
