import Mathlib.Algebra.Group.Nat.Defs
import Mathlib.Data.List.Nodup
import Mathlib.Logic.Function.Basic
import Cocoflow.LabelledRuns
import Cocoflow.PrimitiveTasks
import Cocoflow.PrimitiveLinks

/-!
`sleep` tasks (src/sleep.cc) and the timers of libuv 0.10.27 (deps/libuv-0.10.27.zip, timer.c).
The loop keeps its timers in the order of their deadlines, and those with the same deadline in
the order in which they were started. `calls` records the timers that have called back, the last
one first, with the time of the loop.
-/

namespace Cocoflow.SleepTimers

open LabelledRuns PrimitiveTasks PrimitiveLinks

structure Sleep where
  timeout : Nat
  timer : Option Nat := none
  deriving DecidableEq

/-- An active `uv_timer_t`. `deadline` is its field `timeout`; `begun` and `delay` are the time of
the loop and the argument when it was started. -/
structure Timer where
  place : Nat
  begun : Nat
  delay : Nat
  deadline : Nat
  startId : Nat
  deriving DecidableEq

structure Loop where
  time : Nat := 0
  timerCounter : Nat := 0
  timerHandles : List Timer := []
  calls : List (Timer × Nat) := []
  deriving DecidableEq

def Before (one other : Timer) : Prop :=
  one.deadline < other.deadline ∨ one.deadline = other.deadline ∧ one.startId < other.startId

instance (one other : Timer) : Decidable (Before one other) :=
  inferInstanceAs (Decidable (_ ∨ _))

namespace Loop

def uvTimerStart (loop : Loop) (place timeout : Nat) : Loop :=
  let clamped := (loop.time + timeout) % 2 ^ 64
  let timer : Timer :=
    { place := place
      begun := loop.time
      delay := timeout
      deadline := if clamped < timeout then 2 ^ 64 - 1 else clamped
      startId := loop.timerCounter }
  { loop with
    timerCounter := loop.timerCounter + 1
    timerHandles := timer :: loop.timerHandles }

def uvTimerStop (loop : Loop) (place : Nat) : Loop :=
  { loop with timerHandles := loop.timerHandles.filter fun timer => timer.place ≠ place }

/-- `uv__update_time`: the clock is monotonic and has 64 bits. -/
def updateTime (loop : Loop) (time : Nat) : Option Loop :=
  if loop.time ≤ time ∧ time < 2 ^ 64 then some { loop with time := time } else none

end Loop

namespace Sleep

def run (task place : Nat) (object : Sleep) (memory : Memory Loop) :
    Option (Sleep × Memory Loop × Bool) :=
  (memory.allocate place task).map fun memory =>
    ({ object with timer := some place },
      { memory with extra := memory.extra.uvTimerStart place object.timeout }, true)

/-- The `uv_close` at the end of `sleep::run` and in `sleep::cancel`. -/
def close (object : Sleep) (memory : Memory Loop) : Option (Sleep × Memory Loop) :=
  match object.timer with
  | none => none
  | some place =>
      (memory.uvClose place).map fun memory =>
        (object, { memory with extra := memory.extra.uvTimerStop place })

/-- `uv__run_timers` takes the first timer if it is due, stops it and calls `sleep_cb`. -/
def sleepCb (place : Nat) (_ : Unit) (objects : Nat → Option Sleep) (memory : Memory Loop) :
    Option (Memory Loop × Option (Nat × Sleep)) :=
  match memory.requests place, memory.extra.timerHandles.find? fun timer => timer.place = place with
  | some request, some timer =>
      if request.phase = .pending ∧ timer.deadline ≤ memory.extra.time ∧
          ∀ other ∈ memory.extra.timerHandles, ¬Before other timer then
        request.data.bind fun task => (objects task).map fun object =>
          let stopped := memory.extra.uvTimerStop place
          ({ memory.put place (some { request with phase := .called }) with
              extra := { stopped with calls := (timer, stopped.time) :: stopped.calls } },
            some (task, object))
      else none
  | _, _ => none

end Sleep

def sleep : Primitive Sleep Nat Nat Unit Nat Loop where
  request := Sleep.timer
  build := fun timeout _ => if timeout < 2 ^ 64 then some { timeout := timeout } else none
  run := Sleep.run
  back := Sleep.close
  cancel := Sleep.close
  callback := Sleep.sleepCb
  behind := fun _ memory => some memory
  act := fun time memory =>
    (memory.extra.updateTime time).map fun loop => { memory with extra := loop }

section Cases

variable {task place : Nat} {object after : Sleep} {memory memory' : Memory Loop}

theorem run_cases {yields : Bool}
    (taken : object.run task place memory = some (after, memory', yields)) :
    yields = true ∧ memory.requests place = none ∧ after = { object with timer := some place } ∧
      memory'.requests = Function.update memory.requests place (some { data := some task }) ∧
      memory'.extra = memory.extra.uvTimerStart place object.timeout := by
  unfold Sleep.run at taken
  obtain ⟨allocated, begun, taken⟩ := Option.map_eq_some_iff.mp taken
  obtain ⟨free, rfl⟩ := allocate_cases begun
  cases taken
  exact ⟨rfl, free, rfl, rfl, rfl⟩

theorem close_cases (taken : object.close memory = some (after, memory')) :
    ∃ spot request, object.timer = some spot ∧ memory.requests spot = some request ∧
      request.phase ≠ .closing ∧ after = object ∧
      memory'.requests =
        Function.update memory.requests spot (some { request with phase := .closing }) ∧
      memory'.extra = memory.extra.uvTimerStop spot := by
  unfold Sleep.close at taken
  split at taken
  · cases taken
  · rename_i spot own
    obtain ⟨closed, closes, taken⟩ := Option.map_eq_some_iff.mp taken
    cases taken
    unfold Memory.uvClose at closes
    split at closes
    · cases closes
    · rename_i request there
      split at closes
      · cases closes
      · rename_i opened
        cases closes
        exact ⟨spot, request, own, there, opened, rfl, rfl, rfl⟩

theorem sleepCb_cases {objects : Nat → Option Sleep} {stands : Option (Nat × Sleep)}
    (called : Sleep.sleepCb place () objects memory = some (memory', stands)) :
    ∃ request timer owner object, memory.requests place = some request ∧
      request.phase = .pending ∧ request.data = some owner ∧ objects owner = some object ∧
      stands = some (owner, object) ∧ timer ∈ memory.extra.timerHandles ∧ timer.place = place ∧
      timer.deadline ≤ memory.extra.time ∧
      (∀ other ∈ memory.extra.timerHandles, ¬Before other timer) ∧
      memory'.requests =
        Function.update memory.requests place (some { request with phase := .called }) ∧
      memory'.extra = { memory.extra.uvTimerStop place with
        calls := (timer, memory.extra.time) :: memory.extra.calls } := by
  unfold Sleep.sleepCb at called
  split at called
  · rename_i request timer there first
    split at called
    · rename_i due
      obtain ⟨owner, names, called⟩ := Option.bind_eq_some_iff.mp called
      obtain ⟨object, shown, called⟩ := Option.map_eq_some_iff.mp called
      cases called
      exact ⟨request, timer, owner, object, there, due.1, names, shown, rfl,
        List.mem_of_find?_eq_some first, by simpa using List.find?_some first, due.2.1, due.2.2,
        rfl, rfl⟩
    · cases called
  · cases called

theorem sleep_lawful : Lawful sleep fun _ => false where
  run task place object memory after memory' yields taken := by
    obtain ⟨rfl, free, rfl, requests, -⟩ := run_cases taken
    exact ⟨place, rfl, free, requests⟩
  back object memory after memory' place found own there called taken := by
    obtain ⟨spot, request, asks, held, -, -, requests, -⟩ := close_cases taken
    have same : spot = place := Option.some.inj (asks.symm.trans own)
    subst same
    exact ⟨_, by simp, requests⟩
  cancel object memory after memory' place own taken := by
    obtain ⟨spot, request, asks, held, -, -, requests, -⟩ := close_cases taken
    have same : spot = place := Option.some.inj (asks.symm.trans own)
    subst same
    exact ⟨_, by simp [Loose], requests⟩
  callback place answer objects memory memory' stands called := by
    obtain ⟨request, timer, owner, object, there, pending, names, shown, rfl, -, -, -, -, requests,
      -⟩ := sleepCb_cases called
    refine ⟨request, there, pending, requests, by simp, ?_⟩
    rintro task after same
    cases same
    exact ⟨names, object, shown, rfl⟩
  behind place memory memory' taken := by
    cases taken
    exact Or.inl rfl
  act time memory memory' taken := by
    obtain ⟨loop, -, rfl⟩ := Option.map_eq_some_iff.mp taken
    rfl

end Cases

/-- The timer waits for its delay, as far as the clock goes. -/
def Punctual (timer : Timer) (time : Nat) : Prop :=
  min (timer.begun + timer.delay) (2 ^ 64 - 1) ≤ timer.deadline ∧ timer.deadline ≤ time

structure Timed (loop : Loop) : Prop where
  clock : loop.time < 2 ^ 64
  delayed : ∀ timer ∈ loop.timerHandles,
    min (timer.begun + timer.delay) (2 ^ 64 - 1) ≤ timer.deadline
  bounded : ∀ timer ∈ loop.timerHandles, timer.deadline < 2 ^ 64
  numbered : ∀ timer ∈ loop.timerHandles, timer.startId < loop.timerCounter
  apart : (loop.timerHandles.map Timer.startId).Nodup
  past : ∀ call ∈ loop.calls, call.1.deadline ≤ loop.time ∧ call.1.startId < loop.timerCounter
  ahead : ∀ call ∈ loop.calls, ∀ timer ∈ loop.timerHandles, Before call.1 timer
  sorted : loop.calls.Pairwise fun late early => Before early.1 late.1
  punctual : ∀ call ∈ loop.calls, Punctual call.1 call.2

section Order

variable {loop : Loop} {place timeout : Nat}

theorem timed_start (timed : Timed loop) (bound : timeout < 2 ^ 64) :
    Timed (loop.uvTimerStart place timeout) := by
  have clock := timed.clock
  have late : loop.time ≤ (if (loop.time + timeout) % 2 ^ 64 < timeout then 2 ^ 64 - 1
      else (loop.time + timeout) % 2 ^ 64) ∧
      min (loop.time + timeout) (2 ^ 64 - 1) ≤
        (if (loop.time + timeout) % 2 ^ 64 < timeout then 2 ^ 64 - 1
          else (loop.time + timeout) % 2 ^ 64) ∧
      (if (loop.time + timeout) % 2 ^ 64 < timeout then 2 ^ 64 - 1
        else (loop.time + timeout) % 2 ^ 64) < 2 ^ 64 := by
    split <;> omega
  constructor
  case clock => exact clock
  case delayed =>
    intro timer member
    rcases List.mem_cons.mp member with rfl | old
    · exact late.2.1
    · exact timed.delayed timer old
  case bounded =>
    intro timer member
    rcases List.mem_cons.mp member with rfl | old
    · exact late.2.2
    · exact timed.bounded timer old
  case numbered =>
    intro timer member
    rcases List.mem_cons.mp member with rfl | old
    · exact Nat.lt_succ_self _
    · exact Nat.lt_succ_of_lt (timed.numbered timer old)
  case apart =>
    refine List.nodup_cons.mpr ⟨fun taken => ?_, timed.apart⟩
    obtain ⟨other, old, same⟩ := List.mem_map.mp taken
    exact absurd same (Nat.ne_of_lt (timed.numbered other old))
  case past =>
    intro call member
    obtain ⟨deadline, id⟩ := timed.past call member
    exact ⟨deadline, Nat.lt_succ_of_lt id⟩
  case ahead =>
    intro call member timer there
    rcases List.mem_cons.mp there with rfl | old
    · obtain ⟨deadline, id⟩ := timed.past call member
      have first := late.1
      unfold Before
      dsimp only
      omega
    · exact timed.ahead call member timer old
  case sorted => exact timed.sorted
  case punctual => exact timed.punctual

theorem timed_stop (timed : Timed loop) : Timed (loop.uvTimerStop place) where
  clock := timed.clock
  delayed timer member := timed.delayed timer (List.mem_of_mem_filter member)
  bounded timer member := timed.bounded timer (List.mem_of_mem_filter member)
  numbered timer member := timed.numbered timer (List.mem_of_mem_filter member)
  apart := timed.apart.sublist (List.filter_sublist.map _)
  past := timed.past
  ahead call member timer there := timed.ahead call member timer (List.mem_of_mem_filter there)
  sorted := timed.sorted
  punctual := timed.punctual

theorem timed_call (timed : Timed loop) {timer : Timer} (member : timer ∈ loop.timerHandles)
    (own : timer.place = place) (due : timer.deadline ≤ loop.time)
    (first : ∀ other ∈ loop.timerHandles, ¬Before other timer) :
    Timed { loop.uvTimerStop place with calls := (timer, loop.time) :: loop.calls } := by
  have stopped : Timed (loop.uvTimerStop place) := timed_stop timed
  refine ⟨stopped.clock, stopped.delayed, stopped.bounded, stopped.numbered, stopped.apart, ?past,
    ?ahead, ?sorted, ?punctual⟩
  case past =>
    intro call there
    rcases List.mem_cons.mp there with rfl | early
    · exact ⟨due, timed.numbered timer member⟩
    · exact timed.past call early
  case ahead =>
    intro call there other left
    rcases List.mem_cons.mp there with rfl | early
    · obtain ⟨inside, elsewhere⟩ := List.mem_filter.mp left
      have different : other ≠ timer := by
        rintro rfl
        simp [own] at elsewhere
      have ids : other.startId ≠ timer.startId := by
        intro same
        exact different (List.inj_on_of_nodup_map timed.apart inside member same)
      have not := first other inside
      unfold Before at not ⊢
      dsimp only
      omega
    · exact stopped.ahead call early other left
  case sorted =>
    exact List.pairwise_cons.mpr
      ⟨fun call early => timed.ahead call early timer member, timed.sorted⟩
  case punctual =>
    intro call there
    rcases List.mem_cons.mp there with rfl | early
    · exact ⟨timed.delayed timer member, due⟩
    · exact timed.punctual call early

theorem timed_updateTime (timed : Timed loop) {time : Nat} {next : Loop}
    (taken : loop.updateTime time = some next) : Timed next := by
  unfold Loop.updateTime at taken
  split at taken
  · rename_i forward
    cases taken
    refine ⟨forward.2, timed.delayed, timed.bounded, timed.numbered, timed.apart,
      fun call there => ?_, timed.ahead, timed.sorted, timed.punctual⟩
    obtain ⟨deadline, id⟩ := timed.past call there
    exact ⟨Nat.le_trans deadline forward.1, id⟩
  · cases taken

theorem exists_first {handles : List Timer} (some_ : handles ≠ []) :
    ∃ timer ∈ handles, ∀ other ∈ handles, ¬Before other timer := by
  induction handles with
  | nil => exact absurd rfl some_
  | cons head rest ih =>
      by_cases last : rest = []
      · subst last
        exact ⟨head, by simp, by simp [Before]⟩
      · obtain ⟨first, member, least⟩ := ih last
        by_cases earlier : Before head first
        · refine ⟨head, by simp, fun other there => ?_⟩
          rcases List.mem_cons.mp there with rfl | inside
          · simp [Before]
          · have behind := least other inside
            unfold Before at *
            omega
        · refine ⟨first, List.mem_cons_of_mem _ member, fun other there => ?_⟩
          rcases List.mem_cons.mp there with rfl | inside
          · exact earlier
          · exact least other inside

end Order

def naps : Contract Sleep Loop where
  holds := Timed
  fresh := fun object => object.timeout < 2 ^ 64
  waits := fun _ => True
  told := fun _ => True
  ended := fun _ => True
  cut := fun _ => True

theorem naps_met : Meets sleep naps where
  build timeout memory object _ built := by
    simp only [sleep] at built
    split at built
    · rename_i bound
      cases built
      exact bound
    · cases built
  run task place object memory after memory' yields timed bound taken := by
    obtain ⟨rfl, -, rfl, -, started⟩ := run_cases taken
    exact ⟨started ▸ timed_start timed bound, trivial⟩
  callback place answer objects memory memory' stands timed called := by
    obtain ⟨request, timer, owner, object, -, -, -, -, rfl, member, own, due, first, -, calls⟩ :=
      sleepCb_cases called
    exact ⟨calls ▸ timed_call timed member own due first, fun _ _ _ _ _ _ => trivial⟩
  back object memory after memory' timed _ taken := by
    obtain ⟨spot, request, -, -, -, -, -, stopped⟩ := close_cases taken
    exact ⟨stopped ▸ timed_stop timed, trivial⟩
  cancel object memory after memory' timed _ taken := by
    obtain ⟨spot, request, -, -, -, -, -, stopped⟩ := close_cases taken
    exact ⟨stopped ▸ timed_stop timed, trivial⟩
  behind place memory memory' timed taken := by
    cases taken
    exact timed
  act time memory memory' timed taken := by
    obtain ⟨loop, updated, rfl⟩ := Option.map_eq_some_iff.mp taken
    exact timed_updateTime timed updated

/-- The task is suspended and waits for the timer in this place. -/
def Asleep (world : World Sleep Loop) (task place : Nat) : Prop :=
  ∃ entry, world.tasks task = some entry ∧ entry.yielded = true ∧ entry.object.timer = some place

/-- Every sleeping task has an active timer with its timeout, every active timer a handle that
belongs to a sleeping task, and every other handle is being closed. -/
structure Armed (world : World Sleep Loop) : Prop where
  sleepers : ∀ task entry, world.tasks task = some entry → entry.yielded = true →
    ∃ timer ∈ world.memory.extra.timerHandles,
      entry.object.timer = some timer.place ∧ timer.delay = entry.object.timeout
  timers : ∀ timer ∈ world.memory.extra.timerHandles, ∃ task,
    world.memory.requests timer.place = some { data := some task } ∧
      Asleep world task timer.place
  handles : ∀ place found, world.memory.requests place = some found →
    found.phase = .closing ∨ ∃ task, found = { data := some task } ∧ Asleep world task place
  alone : (world.memory.extra.timerHandles.map Timer.place).Nodup

section Handles

variable {world world' : World Sleep Loop} {task place : Nat} {entry entry' : Entry Sleep}

theorem asleep_named (linked : Linked sleep world)
    (names : world.memory.requests place = some { data := some task }) :
    Asleep world task place :=
  linked.told place task names

theorem handle_kept (linked' : Linked sleep world') {found : Request}
    (there : world'.memory.requests place = some found)
    (before : found.phase = .closing ∨
      ∃ task, found = { data := some task } ∧ Asleep world task place) :
    found.phase = .closing ∨
      ∃ task, found = { data := some task } ∧ Asleep world' task place := by
  rcases before with closed | ⟨owner, rfl, -⟩
  · exact Or.inl closed
  · exact Or.inr ⟨owner, rfl, asleep_named linked' there⟩

theorem armed_leaves (linked : Linked sleep world) (armed : Armed world)
    (linked' : Linked sleep world')
    (known : world.tasks task = some entry) (still : entry.yielded = true)
    (own : entry.object.timer = some place)
    (tasks : world'.tasks = Function.update world.tasks task (some entry'))
    (left : entry'.yielded = false) {request : Request} (closing : request.phase = .closing)
    (requests : world'.memory.requests =
      Function.update world.memory.requests place (some request))
    (timers : world'.memory.extra.timerHandles =
      world.memory.extra.timerHandles.filter fun timer => timer.place ≠ place) :
    Armed world' := by
  constructor
  case sleepers =>
    intro other there found sleeping
    rw [tasks] at found
    by_cases same : other = task
    · rw [same, Function.update_self] at found
      cases found
      rw [left] at sleeping
      cases sleeping
    · rw [Function.update_of_ne same] at found
      obtain ⟨timer, member, asks, delay⟩ := armed.sleepers other there found sleeping
      obtain ⟨-, -, -, spot, asks', names⟩ := linked.waits other there found sleeping
      obtain ⟨-, -, -, spot', own', held⟩ := linked.waits task entry known still
      refine ⟨timer, ?_, asks, delay⟩
      rw [timers]
      refine List.mem_filter.mpr ⟨member, ?_⟩
      have apart : timer.place ≠ place := by
        rintro same'
        cases asks.symm.trans asks'
        cases own.symm.trans own'
        rw [same'] at names
        rw [names] at held
        cases held
        exact same rfl
      simpa using apart
  case timers =>
    intro timer member
    rw [timers] at member
    obtain ⟨inside, apart⟩ := List.mem_filter.mp member
    obtain ⟨owner, names, -⟩ := armed.timers timer inside
    have names' : world'.memory.requests timer.place = some { data := some owner } := by
      rw [requests, Function.update_of_ne (by simpa using apart)]
      exact names
    exact ⟨owner, names', asleep_named linked' names'⟩
  case handles =>
    intro spot found there
    have now := there
    rw [requests] at now
    by_cases same : spot = place
    · rw [same, Function.update_self] at now
      cases now
      exact Or.inl closing
    · rw [Function.update_of_ne same] at now
      exact handle_kept linked' there (armed.handles spot found now)
  case alone =>
    rw [timers]
    exact armed.alone.sublist (List.filter_sublist.map _)

theorem armed_same (armed : Armed world) (linked' : Linked sleep world')
    (kept : ∀ other there, world'.tasks other = some there → there.yielded = true →
      world.tasks other = some there)
    (requests : world'.memory.requests = world.memory.requests)
    (timers : world'.memory.extra.timerHandles = world.memory.extra.timerHandles) :
    Armed world' := by
  constructor
  case sleepers =>
    intro other there found sleeping
    rw [timers]
    exact armed.sleepers other there (kept other there found sleeping) sleeping
  case timers =>
    intro timer member
    rw [timers] at member
    obtain ⟨owner, names, -⟩ := armed.timers timer member
    rw [← requests] at names
    exact ⟨owner, names, asleep_named linked' names⟩
  case handles =>
    intro spot found there
    exact handle_kept linked' there (armed.handles spot found (requests ▸ there))
  case alone =>
    rw [timers]
    exact armed.alone

theorem armed_run (armed : Armed world) (linked' : Linked sleep world')
    (taken : world.run sleep task place = some world') : Armed world' := by
  obtain ⟨entry, object, memory, yields, known, -, runs, rfl⟩ := ran_cases taken
  obtain ⟨rfl, free, rfl, requests, started⟩ := run_cases runs
  obtain ⟨begun, handles, self, delay⟩ : ∃ timer : Timer,
      memory.extra.timerHandles = timer :: world.memory.extra.timerHandles ∧
        timer.place = place ∧ timer.delay = entry.object.timeout := by
    rw [started]
    exact ⟨_, rfl, rfl, rfl⟩
  -- the place was free, so the new timer is no other's
  constructor
  case sleepers =>
    intro other there found sleeping
    change ∃ timer ∈ memory.extra.timerHandles, _
    rw [handles]
    by_cases same : other = task
    · subst same
      cases (Function.update_self ..).symm.trans found
      exact ⟨begun, List.mem_cons_self, congrArg some self.symm, delay⟩
    · obtain ⟨timer, member, rest⟩ := armed.sleepers other there
        ((Function.update_of_ne same ..).symm.trans found) sleeping
      exact ⟨timer, List.mem_cons_of_mem _ member, rest⟩
  case timers =>
    intro timer member
    change timer ∈ memory.extra.timerHandles at member
    rw [handles] at member
    obtain ⟨owner, names⟩ : ∃ owner,
        memory.requests timer.place = some { data := some owner } := by
      rw [requests]
      rcases List.mem_cons.mp member with rfl | old
      · exact ⟨task, by rw [self, Function.update_self]⟩
      · obtain ⟨owner, names, -⟩ := armed.timers timer old
        have apart : timer.place ≠ place := by
          intro same
          rw [same, free] at names
          cases names
        exact ⟨owner, by rw [Function.update_of_ne apart, names]⟩
    exact ⟨owner, names, asleep_named linked' names⟩
  case handles =>
    intro spot found there
    have now : memory.requests spot = some found := there
    rw [requests] at now
    by_cases same : spot = place
    · rw [same, Function.update_self] at now
      cases now
      exact Or.inr ⟨task, rfl, asleep_named linked' there⟩
    · rw [Function.update_of_ne same] at now
      exact handle_kept linked' there (armed.handles spot found now)
  case alone =>
    change (memory.extra.timerHandles.map Timer.place).Nodup
    rw [handles, List.map_cons, self]
    refine List.nodup_cons.mpr ⟨fun used => ?_, armed.alone⟩
    obtain ⟨timer, old, same⟩ := List.mem_map.mp used
    obtain ⟨owner, names, -⟩ := armed.timers timer old
    rw [same, free] at names
    cases names

theorem armed_callback (linked : Linked sleep world) (armed : Armed world)
    (linked' : Linked sleep world') {answer : Unit}
    (taken : step sleep world (.callback place answer) = some world') : Armed world' := by
  obtain ⟨quiet, ⟨memory, behind, called, ends, rfl⟩ |
    ⟨memory, owner, entry, object, after, behind, called, known, still, backs, rfl⟩⟩ :=
      callback_cases linked taken
  · obtain ⟨request, timer, owner, object, -, -, -, -, none, -⟩ := sleepCb_cases called
    cases none
  · obtain ⟨request, timer, owner', object', there, pending, names, shown, same, member, self,
      -, -, requests, calls⟩ := sleepCb_cases called
    cases same
    obtain ⟨spot, request', own, held, -, rfl, requests', stopped⟩ := close_cases backs
    -- the request still names the task that waits, whose handle is closed with the timer
    have whole : request = { data := some owner } := by
      cases request
      simp_all
    obtain ⟨entry', known', -, asks⟩ := linked.told place owner (whole ▸ there)
    rw [known] at known'
    cases known'
    rw [World.objects, known] at shown
    cases shown
    cases own.symm.trans asks
    rw [requests, Function.update_idem] at requests'
    refine armed_leaves linked armed linked' known still asks rfl rfl rfl requests' ?_
    change behind.extra.timerHandles = _
    rw [stopped, calls]
    simp [Loop.uvTimerStop, List.filter_filter]

theorem armed_closed (armed : Armed world) (linked' : Linked sleep world')
    (taken : step sleep world (.closed place) = some world') : Armed world' := by
  simp only [step, World.closed] at taken
  split at taken
  · cases taken
  · rename_i found there
    split at taken
    · rename_i free
      cases taken
      refine ⟨armed.sleepers, fun timer member => ?_, fun spot other held => ?_, armed.alone⟩
      · obtain ⟨owner, names, -⟩ := armed.timers timer member
        have apart : timer.place ≠ place := by
          intro same
          rw [same, there] at names
          cases names
          cases free.2
        have kept : Function.update world.memory.requests place none timer.place =
            some { data := some owner } := (Function.update_of_ne apart ..).trans names
        exact ⟨owner, kept, asleep_named linked' kept⟩
      · by_cases same : spot = place
        · subst same
          cases (Function.update_self ..).symm.trans held
        · exact handle_kept linked' held
            (armed.handles spot other ((Function.update_of_ne same ..).symm.trans held))
    · cases taken

theorem armed_step (linked : Linked sleep world) (armed : Armed world)
    (linked' : Linked sleep world') {label : Label Nat Nat Unit Nat} (taken : step sleep world label = some world') :
    Armed world' := by
  cases label with
  | make task timeout =>
      simp only [step] at taken
      split at taken
      · cases taken
      · obtain ⟨object, -, rfl⟩ := Option.map_eq_some_iff.mp taken
        refine armed_same armed linked' (fun other there found sleeping => ?_) rfl rfl
        by_cases same : other = task
        · subst same
          cases (Function.update_self ..).symm.trans found
          cases sleeping
        · exact (Function.update_of_ne same ..).symm.trans found
  | destroy task =>
      simp only [step] at taken
      split at taken
      · cases taken
      · split at taken
        · cases taken
        · cases taken
          refine armed_same armed linked' (fun other there found _ => ?_) rfl rfl
          by_cases same : other = task
          · subst same
            cases (Function.update_self ..).symm.trans found
          · exact (Function.update_of_ne same ..).symm.trans found
  | run task place => exact armed_run armed linked' taken
  | cancel task direct =>
      obtain ⟨entry, object, memory, known, still, cuts, rfl⟩ := cancel_cases taken
      obtain ⟨spot, request, own, -, -, rfl, requests, stopped⟩ := close_cases cuts
      exact armed_leaves linked armed linked' known still own rfl rfl rfl requests
        (congrArg Loop.timerHandles stopped)
  | callback place answer => exact armed_callback linked armed linked' taken
  | callbackEnd =>
      simp only [step, World.callbackEnd] at taken
      split at taken
      · cases taken
      · obtain ⟨behind, ends, rfl⟩ := Option.map_eq_some_iff.mp taken
        cases ends
        exact armed_same armed linked' (fun _ _ found _ => found) rfl rfl
  | closed place => exact armed_closed armed linked' taken
  | act time =>
      simp only [step] at taken
      obtain ⟨memory, acts, rfl⟩ := Option.map_eq_some_iff.mp taken
      obtain ⟨loop, updated, rfl⟩ := Option.map_eq_some_iff.mp acts
      unfold Loop.updateTime at updated
      split at updated
      · cases updated
        exact armed_same armed linked' (fun _ _ found _ => found) rfl rfl
      · cases updated

theorem find_place {handles : List Timer} (alone : (handles.map Timer.place).Nodup)
    {timer : Timer} (member : timer ∈ handles) :
    handles.find? (fun other => other.place = timer.place) = some timer := by
  cases shown : handles.find? fun other => other.place = timer.place with
  | none =>
      have absent := List.find?_eq_none.mp shown timer member
      simp at absent
  | some other =>
      have own : other.place = timer.place := by simpa using List.find?_some shown
      rw [List.inj_on_of_nodup_map alone (List.mem_of_find?_eq_some shown) member own]

theorem call_enabled (armed : Armed world) {timer : Timer}
    (member : timer ∈ world.memory.extra.timerHandles)
    (due : timer.deadline ≤ world.memory.extra.time)
    (first : ∀ other ∈ world.memory.extra.timerHandles, ¬Before other timer) :
    ∃ memory stands, sleep.callback timer.place () world.objects world.memory =
      some (memory, stands) := by
  obtain ⟨task, there, entry, known, -⟩ := armed.timers timer member
  have ready : (Phase.pending = Phase.pending ∧ timer.deadline ≤ world.memory.extra.time ∧
      ∀ other ∈ world.memory.extra.timerHandles, ¬Before other timer) := ⟨rfl, due, first⟩
  change ∃ memory stands, Sleep.sleepCb timer.place () world.objects world.memory =
    some (memory, stands)
  unfold Sleep.sleepCb
  rw [there, find_place armed.alone member]
  dsimp only
  rw [if_pos ready]
  simp only [World.objects, known, Option.map_some, Option.bind_some]
  exact ⟨_, _, rfl⟩

theorem close_enabled {object : Sleep} {memory : Memory Loop} {place : Nat} {found : Request}
    (own : object.timer = some place) (there : memory.requests place = some found)
    (opened : found.phase ≠ .closing) : ∃ result, object.close memory = some result := by
  simp [Sleep.close, own, Memory.uvClose, there, opened]

theorem wake_enabled (linked : Linked sleep world) (armed : Armed world)
    (idle : world.calling = none) {timer : Timer}
    (member : timer ∈ world.memory.extra.timerHandles)
    (due : timer.deadline ≤ world.memory.extra.time)
    (first : ∀ other ∈ world.memory.extra.timerHandles, ¬Before other timer) :
    ∃ next, step sleep world (.callback timer.place ()) = some next := by
  obtain ⟨memory, stands, called⟩ := call_enabled armed member due first
  exact callback_proceeds sleep_lawful linked idle called (fun memory _ => ⟨memory, rfl⟩)
    fun object memory found own held past => close_enabled own held (by simp [past])

theorem cancel_enabled (linked : Linked sleep world) (known : world.tasks task = some entry)
    (still : entry.yielded = true) (direct : Bool) :
    ∃ next, step sleep world (.cancel task direct) = some next := by
  exact cancel_proceeds linked direct known still fun place own holds =>
    close_enabled own holds (by simp)

theorem sleeps_armed {labels : List (Label Nat Nat Unit Nat)}
    (run : replay (step sleep) { memory := { extra := {} } } labels = some world) :
    Linked sleep world ∧ Armed world ∧ Timed world.memory.extra := by
  have heard : Along (step sleep) (Heard fun _ => false) { memory := { extra := {} } } labels :=
    heard_always labels _
  have start : Timed {} :=
    ⟨by decide, by simp, by simp, by simp, by simp, by simp, by simp, by simp, by simp⟩
  obtain ⟨linked, honoured⟩ := honoured_along sleep_lawful naps_met start heard run
  have armed : Armed world :=
    (replay_always (fun world => Linked sleep world ∧ Armed world)
      (fun before label _ both taken => by
        have silent : Heard (fun _ => false) before label := by cases label <;> simp [Heard]
        have still := linked_step sleep_lawful both.1 silent taken
        exact ⟨still, armed_step both.1 both.2 still taken⟩)
      ⟨initial_linked {}, by simp, by simp, by simp, by simp⟩ run).2
  exact ⟨linked, armed, honoured.holds⟩

end Handles

/-- The tasks wake in the order of their deadlines, none of them early. As long as a timer is
due, the task of the first one can wake. No handle is closed twice, and none is left behind. -/
structure Sound (world : World Sleep Loop) : Prop where
  sorted : world.memory.extra.calls.Pairwise fun late early => Before early.1 late.1
  punctual : ∀ call ∈ world.memory.extra.calls, Punctual call.1 call.2
  armed : Armed world
  wakes : world.calling = none → (∃ timer ∈ world.memory.extra.timerHandles,
    timer.deadline ≤ world.memory.extra.time) →
      ∃ first ∈ world.memory.extra.timerHandles,
        (∀ other ∈ world.memory.extra.timerHandles, ¬Before other first) ∧
          ∃ task next, Asleep world task first.place ∧
            step sleep world (.callback first.place ()) = some next
  cancels : ∀ task entry direct, world.tasks task = some entry → entry.yielded = true →
    ∃ next, step sleep world (.cancel task direct) = some next
  once : ∀ task entry, world.tasks task = some entry → entry.resumed + entry.cancelled ≤ 1

/-- In every run, in whatever order the tasks start, are cancelled and are destroyed. -/
theorem sleeps_sound {world : World Sleep Loop} {labels : List (Label Nat Nat Unit Nat)}
    (run : replay (step sleep) { memory := { extra := {} } } labels = some world) :
    Sound world := by
  obtain ⟨linked, armed, timed⟩ := sleeps_armed run
  refine ⟨timed.sorted, timed.punctual, armed, ?wakes,
    fun _ _ direct known still => cancel_enabled linked known still direct, ?once⟩
  case wakes =>
    rintro idle ⟨late, there, due⟩
    obtain ⟨first, member, least⟩ := exists_first (List.ne_nil_of_mem there)
    have soon : first.deadline ≤ world.memory.extra.time := by
      have ordered := least late there
      unfold Before at ordered
      omega
    obtain ⟨task, -, asleep⟩ := armed.timers first member
    obtain ⟨next, wakes⟩ := wake_enabled linked armed idle member soon least
    exact ⟨first, member, least, task, next, asleep, wakes⟩
  case once => exact fun _ _ known => linked.once known

/-- Three tasks with two deadlines; the first one is cancelled behind its deadline. -/
def threeSleeps : List (Label Nat Nat Unit Nat) :=
  [.act 100, .make 0 20, .make 1 30, .make 2 20, .run 0 10, .run 1 11, .run 2 12, .act 130,
    .cancel 0 true, .callback 12 (), .callbackEnd, .callback 11 (), .callbackEnd, .closed 10,
    .closed 12, .closed 11]

theorem sleeps_sound_three : ∃ world,
    replay (step sleep) { memory := { extra := {} } } threeSleeps = some world ∧
      world.memory.extra.calls.map (fun call => (call.1.place, call.2)) =
        [(11, 130), (12, 130)] ∧ Sound world := by
  have reached : (replay (step sleep) { memory := { extra := {} } } threeSleeps).isSome := by
    decide +kernel
  have woken : ((replay (step sleep) { memory := { extra := {} } } threeSleeps).get
      reached).memory.extra.calls.map (fun call => (call.1.place, call.2)) =
        [(11, 130), (12, 130)] := by decide +kernel +revert
  have run := (Option.some_get reached).symm
  exact ⟨_, run, woken, sleeps_sound run⟩

end Cocoflow.SleepTimers
