import Mathlib.Data.List.Nodup
import Mathlib.Logic.Function.Basic
import Cocoflow.LabelledRuns
import Cocoflow.PrimitiveTasks
import Cocoflow.PrimitiveLinks

/-!
`getaddrinfo` tasks (src/getaddrinfo.cc). libuv looks a name up in another thread and cannot be
stopped, so a cancelled task leaves its request behind, and the callback of that request drops
the address list. `node`, `service` and `hints` are only handed on to libuv.
-/

namespace Cocoflow.AddressLookups

open LabelledRuns PrimitiveTasks PrimitiveLinks

/-- `wantsResult` and `wantsErrmsg` say that the pointers are not `NULL`; `result` and `errmsg`
are what they point to. -/
structure Getaddrinfo where
  wantsResult : Bool
  wantsErrmsg : Bool
  req : Option Nat := none
  ret : Int := -1
  result : Option Nat := none
  errmsg : Option String := none
  deriving DecidableEq

/-- The address lists that have been allocated and not been freed, and those among them that the
program has been given. -/
structure Lists where
  live : List Nat := []
  handed : List Nat := []
  deriving DecidableEq

/-- What `malloc`, `uv_getaddrinfo` and `uv_strerror` return in `run`. -/
structure Started where
  place : Nat
  status : Int
  error : String

structure Answer where
  status : Int
  result : Option Nat
  error : String

namespace Lists

def allocate (lists : Lists) : Option Nat → Option Lists
  | none => some lists
  | some list =>
      if list ∈ lists.live then none else some { lists with live := list :: lists.live }

def uvFreeaddrinfo (lists : Lists) : Option Nat → Option Lists
  | none => some lists
  | some list =>
      if list ∈ lists.live then some { lists with live := lists.live.erase list } else none

def handOver (lists : Lists) (result : Option Nat) : Lists :=
  { lists with handed := result.toList ++ lists.handed }

def freeaddrinfo (lists : Lists) (list : Nat) : Option Lists :=
  if list ∈ lists.handed then
    (lists.uvFreeaddrinfo (some list)).map fun lists =>
      { lists with handed := lists.handed.erase list }
  else none

end Lists

namespace Getaddrinfo

def setErrmsg (object : Getaddrinfo) (text : String) : Getaddrinfo :=
  if object.wantsErrmsg then { object with errmsg := some text } else object

def run (task : Nat) (started : Started) (object : Getaddrinfo) (memory : Memory Lists) :
    Option (Getaddrinfo × Memory Lists × Bool) :=
  (memory.allocate started.place task).map fun allocated =>
    let object := { object with req := some started.place }
    if started.status = 0 then (object, allocated, true)
    else ({ object with ret := started.status }.setErrmsg started.error, memory, false)

def cancel (object : Getaddrinfo) (memory : Memory Lists) :
    Option (Getaddrinfo × Memory Lists) :=
  match object.req with
  | none => none
  | some place =>
      (memory.clearData place).map fun memory => (object.setErrmsg "It was canceled", memory)

/-- `getaddrinfo_cb` up to `free(req)`. -/
def getaddrinfoCb (place : Nat) (answer : Answer) (objects : Nat → Option Getaddrinfo)
    (memory : Memory Lists) : Option (Memory Lists × Option (Nat × Getaddrinfo)) :=
  match memory.requests place with
  | none => none
  | some request =>
      if request.phase ≠ .pending then none
      else (memory.extra.allocate answer.result).bind fun lists =>
        let called := memory.put place (some { request with phase := .called })
        if answer.status = 0 then
          match request.data with
          | some task => (objects task).bind fun object =>
              if object.wantsResult then
                some ({ called with extra := lists.handOver answer.result },
                  some (task, { object with ret := 0, result := answer.result }))
              else (lists.uvFreeaddrinfo answer.result).map fun lists =>
                ({ called with extra := lists }, some (task, { object with ret := 0 }))
          | none => (lists.uvFreeaddrinfo answer.result).map fun lists =>
              ({ called with extra := lists }, none)
        else if answer.result ≠ none then none
        else
          match request.data with
          | some task => (objects task).map fun object =>
              (called, some (task, { object with ret := answer.status }.setErrmsg answer.error))
          | none => some (called, none)

end Getaddrinfo

def getaddrinfo : Primitive Getaddrinfo (Bool × Bool) Started Answer Nat Lists where
  request := Getaddrinfo.req
  build := fun (result, errmsg) _ => some { wantsResult := result, wantsErrmsg := errmsg }
  run := Getaddrinfo.run
  back := fun object memory => some (object, memory)
  cancel := Getaddrinfo.cancel
  callback := Getaddrinfo.getaddrinfoCb
  behind := fun place memory => memory.free place
  act := fun list memory =>
    (memory.extra.freeaddrinfo list).map fun lists => { memory with extra := lists }

theorem freed_again {lists middle last : Lists} {result : Option Nat}
    (allocated : lists.allocate result = some middle)
    (freed : middle.uvFreeaddrinfo result = some last) : last = lists := by
  cases result with
  | none =>
      cases allocated
      cases freed
      rfl
  | some list =>
      simp only [Lists.allocate] at allocated
      split at allocated
      · cases allocated
      · cases allocated
        simp only [Lists.uvFreeaddrinfo, List.mem_cons, true_or, if_true,
          List.erase_cons_head] at freed
        cases freed
        rfl

section Requests

variable {task place : Nat} {object after : Getaddrinfo} {memory memory' : Memory Lists}

@[simp] theorem setErrmsg_req (object : Getaddrinfo) (text : String) :
    (object.setErrmsg text).req = object.req := by
  unfold Getaddrinfo.setErrmsg
  split <;> rfl

theorem getaddrinfoCb_cases {answer : Answer} {objects : Nat → Option Getaddrinfo}
    {stands : Option (Nat × Getaddrinfo)}
    (called : Getaddrinfo.getaddrinfoCb place answer objects memory = some (memory', stands)) :
    ∃ request lists, memory.requests place = some request ∧ request.phase = .pending ∧
      memory.extra.allocate answer.result = some lists ∧
      memory'.requests =
        Function.update memory.requests place (some { request with phase := .called }) ∧
      ((request.data = none ∧ stands = none ∧ memory'.extra = memory.extra) ∨
      ∃ task object after, request.data = some task ∧ objects task = some object ∧
        stands = some (task, after) ∧
        ((answer.status = 0 ∧ object.wantsResult = true ∧
            memory'.extra = lists.handOver answer.result ∧
            after = { object with ret := 0, result := answer.result }) ∨
          (answer.status = 0 ∧ object.wantsResult = false ∧ memory'.extra = memory.extra ∧
            after = { object with ret := 0 }) ∨
          (answer.status ≠ 0 ∧ memory'.extra = memory.extra ∧
            after = { object with ret := answer.status }.setErrmsg answer.error))) := by
  unfold Getaddrinfo.getaddrinfoCb at called
  split at called
  · cases called
  · rename_i request there
    split at called
    · cases called
    · rename_i pending
      obtain ⟨lists, allocated, called⟩ := Option.bind_eq_some_iff.mp called
      refine ⟨request, lists, there, by simpa using pending, allocated, ?_⟩
      dsimp only at called
      split at called
      · rename_i success
        split at called
        · rename_i task names
          obtain ⟨object, shown, called⟩ := Option.bind_eq_some_iff.mp called
          split at called
          · rename_i wants
            cases called
            exact ⟨rfl, Or.inr ⟨task, object, _, names, shown, rfl,
              Or.inl ⟨success, wants, rfl, rfl⟩⟩⟩
          · rename_i declines
            obtain ⟨last, freed, called⟩ := Option.map_eq_some_iff.mp called
            cases called
            exact ⟨rfl, Or.inr ⟨task, object, _, names, shown, rfl,
              Or.inr (Or.inl ⟨success, by simpa using declines, freed_again allocated freed, rfl⟩)⟩⟩
        · rename_i silent
          obtain ⟨last, freed, called⟩ := Option.map_eq_some_iff.mp called
          cases called
          exact ⟨rfl, Or.inl ⟨silent, rfl, freed_again allocated freed⟩⟩
      · rename_i failure
        split at called
        · cases called
        · split at called
          · rename_i task names
            obtain ⟨object, shown, called⟩ := Option.map_eq_some_iff.mp called
            cases called
            exact ⟨rfl, Or.inr ⟨task, object, _, names, shown, rfl,
              Or.inr (Or.inr ⟨failure, rfl, rfl⟩)⟩⟩
          · rename_i silent
            cases called
            exact ⟨rfl, Or.inl ⟨silent, rfl, rfl⟩⟩

theorem run_cases {started : Started} {yields : Bool}
    (taken : object.run task started memory = some (after, memory', yields)) :
    (started.status = 0 ∧ yields = true ∧ memory.requests started.place = none ∧
        memory' = memory.put started.place (some { data := some task }) ∧
        after = { object with req := some started.place }) ∨
      (started.status ≠ 0 ∧ yields = false ∧ memory' = memory ∧
        after = ({ object with req := some started.place, ret := started.status } :
          Getaddrinfo).setErrmsg started.error) := by
  unfold Getaddrinfo.run at taken
  obtain ⟨allocated, begun, taken⟩ := Option.map_eq_some_iff.mp taken
  obtain ⟨free, rfl⟩ := allocate_cases begun
  dsimp only at taken
  split at taken
  · rename_i success
    cases taken
    exact Or.inl ⟨success, rfl, free, rfl, rfl⟩
  · rename_i failure
    cases taken
    exact Or.inr ⟨failure, rfl, rfl, rfl⟩

theorem cancel_cases (taken : object.cancel memory = some (after, memory')) :
    ∃ place request, object.req = some place ∧ memory.requests place = some request ∧
      memory' = memory.put place (some { request with data := none }) ∧
      after = object.setErrmsg "It was canceled" := by
  unfold Getaddrinfo.cancel at taken
  split at taken
  · cases taken
  · rename_i place own
    obtain ⟨cleared, clears, taken⟩ := Option.map_eq_some_iff.mp taken
    cases taken
    obtain ⟨request, there, rfl⟩ := clearData_cases clears
    exact ⟨place, request, own, there, rfl, rfl⟩

theorem getaddrinfo_lawful : Lawful getaddrinfo fun _ => false where
  run task started object memory after memory' yields taken := by
    rcases run_cases taken with ⟨-, rfl, free, rfl, rfl⟩ | ⟨-, rfl, rfl, -⟩
    · exact ⟨started.place, rfl, free, rfl⟩
    · rfl
  back object memory after memory' place found _ there called taken := by
    cases taken
    refine ⟨found, by simp [called], ?_⟩
    rw [← there, Function.update_eq_self]
  cancel object memory after memory' place own taken := by
    obtain ⟨spot, request, asks, -, rfl, -⟩ := cancel_cases taken
    have same : spot = place := Option.some.inj (asks.symm.trans own)
    subst same
    exact ⟨_, by simp [Loose], rfl⟩
  callback place answer objects memory memory' stands called := by
    obtain ⟨request, lists, there, pending, -, requests, cases⟩ := getaddrinfoCb_cases called
    refine ⟨request, there, pending, requests, ?_⟩
    rcases cases with ⟨silent, rfl, -⟩ | ⟨task, object, after, names, shown, rfl, written⟩
    · exact ⟨fun _ => Or.inl silent, by simp⟩
    · refine ⟨by simp, ?_⟩
      rintro owner last same
      cases same
      refine ⟨names, object, shown, ?_⟩
      rcases written with ⟨-, -, -, rfl⟩ | ⟨-, -, -, rfl⟩ | ⟨-, -, rfl⟩
      · rfl
      · rfl
      · exact setErrmsg_req ..
  behind place memory memory' taken := Or.inr (by rw [free_cases taken]; rfl)
  act list memory memory' taken := by
    obtain ⟨lists, -, rfl⟩ := Option.map_eq_some_iff.mp taken
    rfl

theorem getaddrinfo_oneTime : OneTime getaddrinfo where
  back object memory after memory' taken := by
    cases taken
    rfl
  cancel object memory after memory' place found own there taken := by
    obtain ⟨spot, request, asks, held, rfl, -⟩ := cancel_cases taken
    have same : spot = place := Option.some.inj (asks.symm.trans own)
    subst same
    rw [there] at held
    cases held
    rfl
  behind place memory memory' taken := by
    rw [free_cases taken]
    rfl

end Requests

structure Settled (lists : Lists) : Prop where
  same : lists.live = lists.handed
  nodup : lists.live.Nodup

def Untouched (object : Getaddrinfo) : Prop :=
  object.ret = -1 ∧ object.result = none ∧ object.errmsg = none

def Failed (object : Getaddrinfo) : Prop :=
  object.ret ≠ 0 ∧ object.result = none ∧ object.errmsg.isSome = object.wantsErrmsg

def Answered (object : Getaddrinfo) : Prop :=
  (object.ret = 0 ∧ object.errmsg = none ∧ (object.result.isSome → object.wantsResult = true)) ∨
    Failed object

def Cancelled (object : Getaddrinfo) : Prop :=
  object.ret = -1 ∧ object.result = none ∧
    object.errmsg = if object.wantsErrmsg then some "It was canceled" else none

def lookups : Contract Getaddrinfo Lists where
  holds := Settled
  fresh := Untouched
  waits := Untouched
  told := Answered
  ended := Answered
  cut := Cancelled

theorem setErrmsg_failed {object : Getaddrinfo} {text : String} (failed : object.ret ≠ 0)
    (empty : object.result = none) (silent : object.errmsg = none) :
    Failed (object.setErrmsg text) := by
  unfold Getaddrinfo.setErrmsg
  split
  · rename_i wants
    exact ⟨failed, empty, wants.symm⟩
  · rename_i declines
    exact ⟨failed, empty, by simp [silent, declines]⟩

theorem settled_handOver {lists middle : Lists} {result : Option Nat} (settled : Settled lists)
    (allocated : lists.allocate result = some middle) : Settled (middle.handOver result) := by
  cases result with
  | none =>
      cases allocated
      exact settled
  | some list =>
      simp only [Lists.allocate] at allocated
      split at allocated
      · cases allocated
      · rename_i new
        cases allocated
        exact ⟨by simp [Lists.handOver, settled.same],
          List.nodup_cons.mpr ⟨new, settled.nodup⟩⟩

theorem settled_freeaddrinfo {lists after : Lists} {list : Nat} (settled : Settled lists)
    (freed : lists.freeaddrinfo list = some after) : Settled after := by
  unfold Lists.freeaddrinfo at freed
  split at freed
  · obtain ⟨middle, frees, rfl⟩ := Option.map_eq_some_iff.mp freed
    simp only [Lists.uvFreeaddrinfo] at frees
    split at frees
    · cases frees
      exact ⟨by simp [settled.same], settled.nodup.erase list⟩
    · cases frees
  · cases freed

theorem lookups_met : Meets getaddrinfo lookups where
  build parameters memory object _ built := by
    cases built
    exact ⟨rfl, rfl, rfl⟩
  run task started object memory after memory' yields settled fresh taken := by
    rcases run_cases taken with ⟨-, rfl, -, rfl, rfl⟩ | ⟨failed, rfl, rfl, rfl⟩
    · exact ⟨settled, fresh⟩
    · exact ⟨settled, Or.inr (setErrmsg_failed failed fresh.2.1 fresh.2.2)⟩
  callback place answer objects memory memory' stands settled called := by
    obtain ⟨request, lists, -, -, allocated, -, cases⟩ := getaddrinfoCb_cases called
    rcases cases with ⟨-, rfl, same⟩ | ⟨task, object, after, -, shown, rfl, written⟩
    · exact ⟨same ▸ settled, by simp⟩
    · have told (owner : Nat) (last found : Getaddrinfo)
          (stands : some (task, after) = some (owner, last)) (known : objects owner = some found) :
          last = after ∧ found = object := by
        cases stands
        rw [shown] at known
        cases known
        exact ⟨rfl, rfl⟩
      rcases written with ⟨-, wants, given, rfl⟩ | ⟨-, declines, same, rfl⟩ | ⟨failed, same, rfl⟩
      · refine ⟨given ▸ settled_handOver settled allocated, ?_⟩
        rintro owner found last stands known ⟨-, -, silent⟩
        obtain ⟨rfl, rfl⟩ := told owner last found stands known
        exact Or.inl ⟨rfl, silent, fun _ => wants⟩
      · refine ⟨same ▸ settled, ?_⟩
        rintro owner found last stands known ⟨-, empty, silent⟩
        obtain ⟨rfl, rfl⟩ := told owner last found stands known
        exact Or.inl ⟨rfl, silent, by simp [empty]⟩
      · refine ⟨same ▸ settled, ?_⟩
        rintro owner found last stands known ⟨-, empty, silent⟩
        obtain ⟨rfl, rfl⟩ := told owner last found stands known
        exact Or.inr (setErrmsg_failed failed empty silent)
  back object memory after memory' settled told taken := by
    cases taken
    exact ⟨settled, told⟩
  cancel object memory after memory' settled waits taken := by
    obtain ⟨place, request, -, -, rfl, rfl⟩ := cancel_cases taken
    obtain ⟨ret, result, errmsg⟩ := waits
    refine ⟨settled, ?_⟩
    change Cancelled (object.setErrmsg "It was canceled")
    unfold Getaddrinfo.setErrmsg
    split
    · rename_i wants
      exact ⟨ret, result, by simp [wants]⟩
    · rename_i declines
      exact ⟨ret, result, by simp [errmsg, declines]⟩
  behind place memory memory' settled taken := by
    rw [free_cases taken]
    exact settled
  act list memory memory' settled taken := by
    obtain ⟨lists, freed, rfl⟩ := Option.map_eq_some_iff.mp taken
    exact settled_freeaddrinfo settled freed

/-- An answer that libuv can give: a failure comes without a list, and a list is a new one. -/
def Possible (lists : Lists) (answer : Answer) : Prop :=
  (answer.status ≠ 0 → answer.result = none) ∧ ∀ list ∈ answer.result, list ∉ lists.live

section Enabled

variable {world : World Getaddrinfo Lists}

theorem allocate_possible {lists : Lists} {answer : Answer} (possible : Possible lists answer) :
    ∃ middle, lists.allocate answer.result = some middle ∧
      ∃ last, middle.uvFreeaddrinfo answer.result = some last := by
  cases result : answer.result with
  | none => exact ⟨lists, rfl, lists, rfl⟩
  | some list =>
      have new := possible.2 list result
      exact ⟨{ lists with live := list :: lists.live }, if_neg new, _, if_pos (by simp)⟩

theorem callback_enabled (linked : Linked getaddrinfo world) {place : Nat} {request : Request}
    (there : world.memory.requests place = some request) (pending : request.phase = .pending)
    (idle : world.calling = none) {answer : Answer}
    (possible : Possible world.memory.extra answer) :
    ∃ next, step getaddrinfo world (.callback place answer) = some next := by
  obtain ⟨middle, allocated, last, freed⟩ := allocate_possible possible
  have waiting : ¬request.phase ≠ .pending := by simp [pending]
  have called : ∃ memory stands, getaddrinfo.callback place answer world.objects world.memory =
      some (memory, stands) := by
    change ∃ memory stands, Getaddrinfo.getaddrinfoCb place answer world.objects world.memory =
      some (memory, stands)
    unfold Getaddrinfo.getaddrinfoCb
    simp only [there, if_neg waiting, allocated, Option.bind_some]
    by_cases success : answer.status = 0
    · cases names : request.data with
      | none => simp [success, freed]
      | some task =>
          have whole : request = { data := some task } := by
            cases request
            simp_all
          obtain ⟨entry, known, -⟩ := linked.told place task (whole ▸ there)
          cases wants : entry.object.wantsResult <;>
            simp [success, freed, World.objects, known, wants]
    · have empty : ¬answer.result ≠ none := by simp [possible.1 success]
      cases names : request.data with
      | none => simp [success, empty]
      | some task =>
          have whole : request = { data := some task } := by
            cases request
            simp_all
          obtain ⟨entry, known, -⟩ := linked.told place task (whole ▸ there)
          simp [success, empty, World.objects, known]
  obtain ⟨memory, stands, called⟩ := called
  exact callback_proceeds getaddrinfo_lawful linked idle called (fun _ => free_there)
    fun object memory _ _ _ _ => ⟨(object, memory), rfl⟩

theorem cancel_enabled (linked : Linked getaddrinfo world) {task : Nat}
    {entry : Entry Getaddrinfo} (known : world.tasks task = some entry)
    (still : entry.yielded = true) (direct : Bool) :
    ∃ next, step getaddrinfo world (.cancel task direct) = some next := by
  refine cancel_proceeds linked direct known still fun place own holds => ?_
  change entry.object.req = some place at own
  change ∃ result, Getaddrinfo.cancel entry.object world.memory = some result
  simp [Getaddrinfo.cancel, own, Memory.clearData, holds]

end Enabled

/-- Nothing is leaked, freed twice or used behind its end, and every task ends in one way. -/
structure Sound (world : World Getaddrinfo Lists) : Prop where
  lists : Settled world.memory.extra
  requests : Swept world
  answers : ∀ place request answer, world.memory.requests place = some request →
    request.phase = .pending → world.calling = none → Possible world.memory.extra answer →
      ∃ next, step getaddrinfo world (.callback place answer) = some next
  returns : world.calling ≠ none → ∃ next, step getaddrinfo world .callbackEnd = some next
  cancels : ∀ task entry direct, world.tasks task = some entry → entry.yielded = true →
    ∃ next, step getaddrinfo world (.cancel task direct) = some next
  once : ∀ task entry, world.tasks task = some entry → entry.resumed + entry.cancelled ≤ 1
  outputs : ∀ task entry, world.tasks task = some entry → Kept lookups entry

/-- In every run, whatever is cancelled or destroyed while a lookup goes on. -/
theorem lookups_sound {world : World Getaddrinfo Lists}
    {labels : List (Label (Bool × Bool) Started Answer Nat)}
    (run : replay (step getaddrinfo) { memory := { extra := {} } } labels = some world) :
    Sound world := by
  have heard : Along (step getaddrinfo) (Heard fun _ => false) { memory := { extra := {} } }
      labels := heard_always labels _
  obtain ⟨linked, honoured⟩ := honoured_along getaddrinfo_lawful lookups_met
    ⟨rfl, List.nodup_nil⟩ heard run
  constructor
  case lists => exact honoured.holds
  case requests => exact swept_along getaddrinfo_lawful getaddrinfo_oneTime heard run
  case answers => exact fun _ _ _ there pending idle => callback_enabled linked there pending idle
  case returns =>
    intro busy
    obtain ⟨place, calling⟩ := Option.ne_none_iff_exists'.mp busy
    exact callbackEnd_proceeds linked calling fun _ => free_there
  case cancels => exact fun _ _ direct known still => cancel_enabled linked known still direct
  case once => exact fun _ _ known => linked.once known
  case outputs => exact honoured.kept

/-- Of two lookups one is cancelled; its answer comes first and is dropped. -/
def oneCancelled : List (Label (Bool × Bool) Started Answer Nat) :=
  [.make 0 (true, true), .make 1 (true, false), .run 0 ⟨10, 0, ""⟩, .run 1 ⟨11, 0, ""⟩,
    .cancel 0 false, .destroy 0, .callback 10 ⟨0, some 20, ""⟩, .callback 11 ⟨0, some 21, ""⟩,
    .destroy 1, .callbackEnd]

theorem lookups_sound_cancelled : ∃ world,
    replay (step getaddrinfo) { memory := { extra := {} } } oneCancelled = some world ∧
      world.memory.extra = { live := [21], handed := [21] } ∧ Sound world := by
  have reached : (replay (step getaddrinfo) { memory := { extra := {} } } oneCancelled).isSome := by
    decide +kernel
  have left : ((replay (step getaddrinfo) { memory := { extra := {} } } oneCancelled).get
      reached).memory.extra = { live := [21], handed := [21] } := by decide +kernel +revert
  have run := (Option.some_get reached).symm
  exact ⟨_, run, left, lookups_sound run⟩

end Cocoflow.AddressLookups
