import Mathlib.Logic.Function.Basic
import Cocoflow.LabelledRuns
import Cocoflow.PrimitiveTasks

/-!
What holds of every primitive that handles its requests properly. Suspended tasks and pending
requests name each other, so no callback finds a destroyed task and no `cancel` a freed request,
and a task settles once. A contract says what the functions of a primitive expect and leave
behind; every run keeps to it.
-/

namespace Cocoflow.PrimitiveLinks

open LabelledRuns PrimitiveTasks

/-- The request does not name a task that libuv could still call back. -/
def Loose (request : Option Request) : Prop :=
  ∀ found ∈ request, found.phase = .pending → found.data = none

section Operations

variable {Extra : Type} {memory memory' : Memory Extra} {place task : Nat}

theorem allocate_cases
    (taken : memory.allocate place task = some memory') :
    memory.requests place = none ∧ memory' = memory.put place (some { data := some task }) := by
  unfold Memory.allocate at taken
  split at taken
  · rename_i free
    cases taken
    exact ⟨free, rfl⟩
  · cases taken

theorem clearData_cases
    (taken : memory.clearData place = some memory') :
    ∃ request, memory.requests place = some request ∧
      memory' = memory.put place (some { request with data := none }) := by
  unfold Memory.clearData at taken
  split at taken
  · cases taken
  · rename_i request there
    cases taken
    exact ⟨request, there, rfl⟩

theorem free_cases
    (taken : memory.free place = some memory') : memory' = memory.put place none := by
  unfold Memory.free at taken
  split at taken
  · cases taken
  · cases taken
    rfl

theorem free_there (there : memory.requests place ≠ none) :
    ∃ memory', memory.free place = some memory' := by
  unfold Memory.free
  split
  · rename_i gone
    exact absurd gone there
  · exact ⟨_, rfl⟩

end Operations

section Links

variable {Object Parameters Input Outcome Action Extra : Type}
  {primitive : Primitive Object Parameters Input Outcome Action Extra}

/-- What a primitive has to do with its requests. `drops` marks the answers on which the callback
leaves a waiting task where it is. -/
structure Lawful (primitive : Primitive Object Parameters Input Outcome Action Extra)
    (drops : Outcome → Bool) : Prop where
  run : ∀ task input object memory after memory' yields,
    primitive.run task input object memory = some (after, memory', yields) →
      if yields then ∃ place, primitive.request after = some place ∧
        memory.requests place = none ∧
        memory'.requests = Function.update memory.requests place (some { data := some task })
      else memory'.requests = memory.requests
  back : ∀ object memory after memory' place found, primitive.request object = some place →
    memory.requests place = some found → found.phase = .called →
      primitive.back object memory = some (after, memory') →
        ∃ request : Request, request.phase ≠ .pending ∧
          memory'.requests = Function.update memory.requests place (some request)
  cancel : ∀ object memory after memory' place, primitive.request object = some place →
    primitive.cancel object memory = some (after, memory') →
      ∃ request, Loose request ∧
        memory'.requests = Function.update memory.requests place request
  callback : ∀ place outcome objects memory memory' stands,
    primitive.callback place outcome objects memory = some (memory', stands) →
      ∃ found, memory.requests place = some found ∧ found.phase = .pending ∧
        memory'.requests =
          Function.update memory.requests place (some { found with phase := .called }) ∧
        (stands = none → found.data = none ∨ drops outcome = true) ∧
        ∀ task after, stands = some (task, after) → found.data = some task ∧
          ∃ object, objects task = some object ∧ primitive.request after = primitive.request object
  behind : ∀ place memory memory', primitive.behind place memory = some memory' →
    memory'.requests = memory.requests ∨
      memory'.requests = Function.update memory.requests place none
  act : ∀ action memory memory', primitive.act action memory = some memory' →
    memory'.requests = memory.requests

structure Rested (entry : Entry Object) : Prop where
  ended : entry.status ≠ .running
  fresh : entry.status = .ready → entry.resumed + entry.cancelled = 0
  once : entry.resumed + entry.cancelled ≤ 1

/-- Suspended tasks and pending requests name each other. -/
structure Linked (primitive : Primitive Object Parameters Input Outcome Action Extra)
    (world : World Object Extra) : Prop where
  waits : ∀ task entry, world.tasks task = some entry → entry.yielded = true →
    entry.status = .running ∧ entry.resumed = 0 ∧ entry.cancelled = 0 ∧
      ∃ place, primitive.request entry.object = some place ∧
        world.memory.requests place = some { data := some task }
  told : ∀ place task, world.memory.requests place = some { data := some task } →
    ∃ entry, world.tasks task = some entry ∧ entry.yielded = true ∧
      primitive.request entry.object = some place
  rests : ∀ task entry, world.tasks task = some entry → entry.yielded = false → Rested entry
  calling : ∀ place, world.calling = some place →
    ∃ found, world.memory.requests place = some found ∧ found.phase ≠ .pending
  quiet : world.signalCanceled = false

theorem Linked.once {world : World Object Extra} (linked : Linked primitive world) {task : Nat}
    {entry : Entry Object} (known : world.tasks task = some entry) :
    entry.resumed + entry.cancelled ≤ 1 := by
  cases still : entry.yielded with
  | false => exact (linked.rests task entry known still).once
  | true =>
      obtain ⟨-, resumed, cancelled, -⟩ := linked.waits task entry known still
      simp [resumed, cancelled]

/-- No answer drops a task that waits for it. -/
def Heard (drops : Outcome → Bool) (world : World Object Extra) :
    Label Parameters Input Outcome Action → Prop
  | .callback place outcome =>
      drops outcome = true → ∀ found ∈ world.memory.requests place, found.data = none
  | _ => True

variable {drops : Outcome → Bool} {world world' : World Object Extra} {task place : Nat}
  {entry entry' : Entry Object} {label : Label Parameters Input Outcome Action}

theorem linked_leaves (linked : Linked primitive world)
    (found : world.tasks task = some entry) (yielded : entry.yielded = true)
    (own : primitive.request entry.object = some place)
    (tasks : world'.tasks = Function.update world.tasks task (some entry'))
    (left : entry'.yielded = false) (rested : Rested entry') {request : Option Request}
    (loose : Loose request)
    (requests : world'.memory.requests = Function.update world.memory.requests place request)
    (calling : ∀ place, world'.calling = some place →
      ∃ found, world'.memory.requests place = some found ∧ found.phase ≠ .pending)
    (quiet : world'.signalCanceled = false) : Linked primitive world' := by
  obtain ⟨-, -, -, place', own', held⟩ := linked.waits task entry found yielded
  rw [own] at own'
  cases own'
  refine ⟨?waits, ?told, ?rests, calling, quiet⟩
  case waits =>
    intro other there known still
    rw [tasks] at known
    by_cases same : other = task
    · rw [same, Function.update_self] at known
      cases known
      rw [left] at still
      cases still
    · rw [Function.update_of_ne same] at known
      obtain ⟨status, resumed, cancelled, spot, asks, names⟩ :=
        linked.waits other there known still
      refine ⟨status, resumed, cancelled, spot, asks, ?_⟩
      have apart : spot ≠ place := by
        rintro rfl
        rw [held] at names
        cases names
        exact same rfl
      rw [requests, Function.update_of_ne apart]
      exact names
  case told =>
    intro spot other names
    rw [requests] at names
    by_cases same : spot = place
    · rw [same, Function.update_self] at names
      have none := loose _ names rfl
      cases none
    · rw [Function.update_of_ne same] at names
      obtain ⟨there, known, still, asks⟩ := linked.told spot other names
      have apart : other ≠ task := by
        rintro rfl
        rw [found] at known
        cases known
        rw [own] at asks
        cases asks
        exact same rfl
      refine ⟨there, ?_, still, asks⟩
      rw [tasks, Function.update_of_ne apart]
      exact known
  case rests =>
    intro other there known still
    rw [tasks] at known
    by_cases same : other = task
    · rw [same, Function.update_self] at known
      cases known
      exact rested
    · rw [Function.update_of_ne same] at known
      exact linked.rests other there known still

theorem linked_entry (linked : Linked primitive world)
    (idle : ∀ entry, world.tasks task = some entry → entry.yielded = false)
    (tasks : ∀ other, other ≠ task → world'.tasks other = world.tasks other)
    (rested : ∀ entry, world'.tasks task = some entry → entry.yielded = false ∧ Rested entry)
    (requests : world'.memory.requests = world.memory.requests)
    (calling : world'.calling = world.calling) (quiet : world'.signalCanceled = false) :
    Linked primitive world' := by
  constructor
  case waits =>
    intro other there known still
    by_cases same : other = task
    · rw [same] at known
      rw [(rested there known).1] at still
      cases still
    · rw [tasks other same] at known
      rw [requests]
      exact linked.waits other there known still
  case told =>
    intro spot other names
    rw [requests] at names
    obtain ⟨there, known, still, asks⟩ := linked.told spot other names
    have apart : other ≠ task := by
      rintro rfl
      rw [idle there known] at still
      cases still
    exact ⟨there, by rw [tasks other apart, known], still, asks⟩
  case rests =>
    intro other there known still
    by_cases same : other = task
    · rw [same] at known
      exact (rested there known).2
    · rw [tasks other same] at known
      exact linked.rests other there known still
  case calling =>
    intro spot called
    rw [calling] at called
    rw [requests]
    exact linked.calling spot called
  case quiet => exact quiet

theorem linked_request (linked : Linked primitive world) {request : Option Request}
    (loose : Loose (world.memory.requests place)) (after : Loose request)
    (tasks : world'.tasks = world.tasks)
    (requests : world'.memory.requests = Function.update world.memory.requests place request)
    (calling : ∀ place, world'.calling = some place →
      ∃ found, world'.memory.requests place = some found ∧ found.phase ≠ .pending)
    (quiet : world'.signalCanceled = false) : Linked primitive world' := by
  have apart (spot other : Nat) (names : world.memory.requests spot = some { data := some other }) :
      spot ≠ place := by
    rintro rfl
    have none := loose _ names rfl
    cases none
  constructor
  case waits =>
    intro other there known still
    rw [tasks] at known
    obtain ⟨status, resumed, cancelled, spot, asks, names⟩ := linked.waits other there known still
    refine ⟨status, resumed, cancelled, spot, asks, ?_⟩
    rw [requests, Function.update_of_ne (apart spot other names)]
    exact names
  case told =>
    intro spot other names
    rw [requests] at names
    rw [tasks]
    by_cases same : spot = place
    · rw [same, Function.update_self] at names
      have none := after _ names rfl
      cases none
    · rw [Function.update_of_ne same] at names
      exact linked.told spot other names
  case rests =>
    intro other there known still
    rw [tasks] at known
    exact linked.rests other there known still
  case calling => exact calling
  case quiet => exact quiet

theorem called_apart (linked : Linked primitive world) {request : Request}
    (held : world.memory.requests place = some request) (pending : request.phase = .pending)
    {spot : Nat} (called : world.calling = some spot) : spot ≠ place := by
  rintro rfl
  obtain ⟨found, there, past⟩ := linked.calling spot called
  rw [held] at there
  cases there
  exact past pending

theorem ran_cases {input : Input} (taken : world.run primitive task input = some world') :
    ∃ entry object memory yields, world.tasks task = some entry ∧ entry.status = .ready ∧
      primitive.run task input entry.object world.memory = some (object, memory, yields) ∧
      world' = { world with memory := memory }.putTask task
        { entry with
          object := object
          status := if yields then .running else .completed
          yielded := yields } := by
  unfold World.run at taken
  split at taken
  · cases taken
  · rename_i entry known
    split at taken
    · rename_i ready
      obtain ⟨⟨object, memory, yields⟩, runs, rfl⟩ := Option.map_eq_some_iff.mp taken
      exact ⟨entry, object, memory, yields, known, ready, runs, rfl⟩
    · cases taken

theorem ready_idle (linked : Linked primitive world) (known : world.tasks task = some entry)
    (ready : entry.status = .ready) : entry.yielded = false := by
  by_contra still
  have status := (linked.waits task entry known (by simpa using still)).1
  rw [ready] at status
  cases status

theorem linked_run (lawful : Lawful primitive drops) (linked : Linked primitive world)
    {input : Input} (taken : world.run primitive task input = some world') :
    Linked primitive world' := by
  obtain ⟨entry, object, memory, yields, known, ready, runs, rfl⟩ := ran_cases taken
  have law := lawful.run _ _ _ _ _ _ _ runs
  have idle := ready_idle linked known ready
  have fresh := (linked.rests task entry known idle).fresh ready
  have only (found : Entry Object) (there : world.tasks task = some found) :
      found.yielded = false := by
    rw [known] at there
    cases there
    exact idle
  cases yields with
  | false =>
      refine linked_entry linked only (fun other apart => Function.update_of_ne apart ..) ?_ law
        rfl linked.quiet
      intro entry there
      have same := (Function.update_self ..).symm.trans there
      cases same
      exact ⟨rfl, by simp, by simp, by simp [fresh]⟩
  | true =>
      obtain ⟨place, asks, free, requests⟩ := law
      constructor
      case waits =>
        intro other there found still
        by_cases same : other = task
        · subst same
          have same := (Function.update_self ..).symm.trans found
          cases same
          refine ⟨rfl, by simp only; omega, by simp only; omega, place, asks, ?_⟩
          change memory.requests place = _
          rw [requests, Function.update_self]
        · replace found := (Function.update_of_ne same ..).symm.trans found
          obtain ⟨status, resumed, cancelled, spot, names, holds⟩ :=
            linked.waits other there found still
          refine ⟨status, resumed, cancelled, spot, names, ?_⟩
          have apart : spot ≠ place := by
            rintro rfl
            rw [free] at holds
            cases holds
          change memory.requests spot = _
          rw [requests, Function.update_of_ne apart]
          exact holds
      case told =>
        intro spot other names
        change memory.requests spot = _ at names
        rw [requests] at names
        by_cases same : spot = place
        · rw [same, Function.update_self] at names
          cases names
          exact ⟨_, Function.update_self .., rfl, by rw [same]; exact asks⟩
        · rw [Function.update_of_ne same] at names
          obtain ⟨there, found, still, holds⟩ := linked.told spot other names
          have apart : other ≠ task := by
            rintro rfl
            rw [only there found] at still
            cases still
          exact ⟨there, (Function.update_of_ne apart ..).trans found, still, holds⟩
      case rests =>
        intro other there found still
        by_cases same : other = task
        · subst same
          have same := (Function.update_self ..).symm.trans found
          cases same
          cases still
        · replace found := (Function.update_of_ne same ..).symm.trans found
          exact linked.rests other there found still
      case calling =>
        intro spot called
        obtain ⟨found, there, past⟩ := linked.calling spot called
        have apart : spot ≠ place := by
          rintro rfl
          rw [free] at there
          cases there
        refine ⟨found, ?_, past⟩
        change memory.requests spot = _
        rw [requests, Function.update_of_ne apart]
        exact there
      case quiet => exact linked.quiet

theorem cancel_cases {direct : Bool} (taken : world.cancel primitive task direct = some world') :
    ∃ entry object memory, world.tasks task = some entry ∧ entry.yielded = true ∧
      primitive.cancel entry.object world.memory = some (object, memory) ∧
      world' = { world with memory := memory, signalCanceled := false }.putTask task
        { entry with
          object := object
          status := .canceled
          yielded := false
          cancelled := entry.cancelled + 1 } := by
  unfold World.cancel at taken
  split at taken
  · cases taken
  · rename_i entry known
    cases direct with
    | true =>
        simp only [if_true, World.taskYieldBack, World.putTask, Function.update_self] at taken
        split at taken
        · cases taken
        · rename_i yielded
          obtain ⟨⟨object, memory⟩, cuts, rfl⟩ := Option.map_eq_some_iff.mp taken
          refine ⟨entry, object, memory, known, by simpa using yielded, cuts, ?_⟩
          simp only [World.putTask, Function.update_idem]
    | false =>
        simp only [Bool.false_eq_true, if_false, if_true, World.taskYieldBack, known] at taken
        split at taken
        · cases taken
        · rename_i yielded
          obtain ⟨⟨object, memory⟩, cuts, rfl⟩ := Option.map_eq_some_iff.mp taken
          exact ⟨entry, object, memory, known, by simpa using yielded, cuts, rfl⟩

theorem callback_cases (linked : Linked primitive world) {outcome : Outcome}
    (taken : world.callback primitive place outcome = some world') :
    world.calling = none ∧
      ((∃ memory behind, primitive.callback place outcome world.objects world.memory =
          some (memory, none) ∧ primitive.behind place memory = some behind ∧
        world' = { world with memory := behind }) ∨
      ∃ memory owner entry object after behind,
        primitive.callback place outcome world.objects world.memory =
          some (memory, some (owner, object)) ∧
        world.tasks owner = some entry ∧ entry.yielded = true ∧
        primitive.back object memory = some (after, behind) ∧
        world' = { world with memory := behind, calling := some place }.putTask owner
          { entry with
            object := after
            status := .completed
            yielded := false
            resumed := entry.resumed + 1 }) := by
  unfold World.callback at taken
  split at taken
  · cases taken
  · rename_i quiet
    refine ⟨by simpa using quiet, ?_⟩
    split at taken
    · cases taken
    · rename_i memory called
      obtain ⟨behind, ends, rfl⟩ := Option.map_eq_some_iff.mp taken
      exact Or.inl ⟨memory, behind, called, ends, rfl⟩
    · rename_i memory owner object called
      split at taken
      · cases taken
      · rename_i entry known
        refine Or.inr ?_
        unfold World.taskYieldBack at taken
        simp only [World.putTask, Function.update_self, linked.quiet, Bool.false_eq_true,
          if_false] at taken
        split at taken
        · cases taken
        · rename_i still
          replace still : entry.yielded = true := by simpa using still
          obtain ⟨⟨after, behind⟩, backs, rfl⟩ := Option.map_eq_some_iff.mp taken
          refine ⟨memory, owner, entry, object, after, behind, called, known, still, backs, ?_⟩
          obtain ⟨status, -⟩ := linked.waits owner entry known still
          simp only [World.putTask, Function.update_idem, status, if_true, linked.quiet]

theorem linked_cancel (lawful : Lawful primitive drops) (linked : Linked primitive world)
    {direct : Bool} (taken : world.cancel primitive task direct = some world') :
    Linked primitive world' := by
  obtain ⟨entry, object, memory, known, yielded, cuts, rfl⟩ := cancel_cases taken
  obtain ⟨-, resumed, cancelled, place, own, holds⟩ := linked.waits task entry known yielded
  obtain ⟨request, loose, requests⟩ := lawful.cancel _ _ _ _ _ own cuts
  refine linked_leaves linked known yielded own rfl rfl
    ⟨by simp, by simp, by simp [resumed, cancelled]⟩ loose requests ?_ rfl
  intro spot called
  obtain ⟨found, there, past⟩ := linked.calling spot called
  refine ⟨found, ?_, past⟩
  change memory.requests spot = _
  rw [requests, Function.update_of_ne (called_apart linked holds rfl called)]
  exact there

theorem linked_callback (lawful : Lawful primitive drops) (linked : Linked primitive world)
    {outcome : Outcome} (heard : drops outcome = true →
      ∀ found ∈ world.memory.requests place, found.data = none)
    (taken : world.callback primitive place outcome = some world') : Linked primitive world' := by
  obtain ⟨quiet, ⟨memory, behind, called, ends, rfl⟩ |
    ⟨memory, owner, entry, object, after, behind, called, known, still, backs, rfl⟩⟩ :=
      callback_cases linked taken
  · -- nobody waits for the answer
    obtain ⟨found, there, pending, requests, dropped, -⟩ := lawful.callback _ _ _ _ _ _ called
    have unnamed : found.data = none := by
      rcases dropped rfl with silent | drops
      · exact silent
      · exact heard drops found there
    have loose : Loose (world.memory.requests place) := by
      intro other member _
      rw [there] at member
      cases member
      exact unnamed
    have after : Loose (memory.requests place) := by
      rw [requests, Function.update_self]
      intro other member now
      cases member
      cases now
    have idle (spot : Nat) (busy : world.calling = some spot) :
        ∃ found, behind.requests spot = some found ∧ found.phase ≠ .pending := by
      rw [quiet] at busy
      cases busy
    rcases lawful.behind _ _ _ ends with same | freed
    · refine linked_request linked loose after rfl ?_ idle linked.quiet
      rw [requests, Function.update_self, ← requests]
      exact same
    · have gone : behind.requests = Function.update world.memory.requests place none := by
        rw [freed, requests, Function.update_idem]
      exact linked_request linked loose (by simp [Loose]) rfl gone idle linked.quiet
  · obtain ⟨found, there, pending, requests, -, stands⟩ := lawful.callback _ _ _ _ _ _ called
    obtain ⟨names, object', shown, asks⟩ := stands owner object rfl
    have whole : found = { data := some owner } := by
      cases found
      simp_all
    subst whole
    obtain ⟨entry', known', -, own⟩ := linked.told place owner there
    rw [known] at known'
    cases known'
    have same : object' = entry.object := by
      rw [World.objects, known] at shown
      cases shown
      rfl
    rw [same, own] at asks
    obtain ⟨-, resumed, cancelled, -⟩ := linked.waits owner entry known still
    have now : memory.requests place = some { data := some owner, phase := .called } := by
      rw [requests, Function.update_self]
    obtain ⟨request, past, changed⟩ := lawful.back _ _ _ _ _ _ asks now rfl backs
    have loose : Loose (some request) := by
      intro other member now
      cases member
      exact absurd now past
    refine linked_leaves linked known still own rfl rfl
      ⟨by simp, by simp, by simp [resumed, cancelled]⟩ loose ?_ ?_ linked.quiet
    · change behind.requests = _
      rw [changed, requests, Function.update_idem]
    · intro spot busy
      cases busy
      refine ⟨request, ?_, past⟩
      change behind.requests place = _
      rw [changed, Function.update_self]

theorem linked_callbackEnd (lawful : Lawful primitive drops) (linked : Linked primitive world)
    (taken : world.callbackEnd primitive = some world') : Linked primitive world' := by
  unfold World.callbackEnd at taken
  split at taken
  · cases taken
  · rename_i place busy
    obtain ⟨behind, ends, rfl⟩ := Option.map_eq_some_iff.mp taken
    obtain ⟨found, there, past⟩ := linked.calling place busy
    have loose : Loose (world.memory.requests place) := by
      intro other member now
      rw [there] at member
      cases member
      exact absurd now past
    rcases lawful.behind _ _ _ ends with same | freed
    · refine linked_request linked loose loose rfl ?_ (by simp) linked.quiet
      rw [Function.update_eq_self]
      exact same
    · exact linked_request linked loose (by simp [Loose]) rfl freed (by simp) linked.quiet

theorem linked_closed (linked : Linked primitive world)
    (taken : world.closed place = some world') : Linked primitive world' := by
  unfold World.closed at taken
  split at taken
  · cases taken
  · rename_i found there
    split at taken
    · rename_i free
      cases taken
      have loose : Loose (world.memory.requests place) := by
        intro other member now
        rw [there] at member
        cases member
        rw [free.2] at now
        cases now
      refine linked_request linked loose (by simp [Loose]) rfl rfl ?_ linked.quiet
      intro spot busy
      rw [free.1] at busy
      cases busy
    · cases taken

/-- The step lemma: suspended tasks and pending requests stay linked. -/
theorem linked_step (lawful : Lawful primitive drops) (linked : Linked primitive world)
    (heard : Heard drops world label) (taken : step primitive world label = some world') :
    Linked primitive world' := by
  cases label with
  | make task parameters =>
      simp only [step] at taken
      split at taken
      · cases taken
      · rename_i absent
        obtain ⟨object, -, rfl⟩ := Option.map_eq_some_iff.mp taken
        refine linked_entry linked (fun entry known => ?_)
          (fun other apart => Function.update_of_ne apart ..) (fun entry there => ?_) rfl rfl
          linked.quiet
        · rw [absent] at known
          cases known
        · have same := (Function.update_self ..).symm.trans there
          cases same
          exact ⟨rfl, by simp, by simp, by simp⟩
  | destroy task =>
      simp only [step] at taken
      split at taken
      · cases taken
      · rename_i entry known
        split at taken
        · cases taken
        · rename_i idle
          cases taken
          refine linked_entry linked (fun found there => ?_)
            (fun other apart => Function.update_of_ne apart ..) (fun found there => ?_) rfl rfl
            linked.quiet
          · rw [known] at there
            cases there
            simpa using idle
          · have gone := (Function.update_self ..).symm.trans there
            cases gone
  | run task input => exact linked_run lawful linked taken
  | cancel task direct => exact linked_cancel lawful linked taken
  | callback place outcome => exact linked_callback lawful linked heard taken
  | callbackEnd => exact linked_callbackEnd lawful linked taken
  | closed place => exact linked_closed linked taken
  | act action =>
      simp only [step] at taken
      obtain ⟨memory, acts, rfl⟩ := Option.map_eq_some_iff.mp taken
      have same := lawful.act _ _ _ acts
      constructor
      case waits => simpa only [same] using linked.waits
      case told => simpa only [same] using linked.told
      case rests => exact linked.rests
      case calling => simpa only [same] using linked.calling
      case quiet => exact linked.quiet

theorem initial_linked (extra : Extra) :
    Linked primitive ({ memory := { extra := extra } } : World Object Extra) := by
  constructor <;> simp

/-- Once its writes are done, a callback gets to its end, or to where the task that it resumes
gives control back. -/
theorem callback_proceeds (lawful : Lawful primitive drops) (linked : Linked primitive world)
    {outcome : Outcome} {memory : Memory Extra} {stands : Option (Nat × Object)}
    (idle : world.calling = none)
    (called : primitive.callback place outcome world.objects world.memory = some (memory, stands))
    (behind : ∀ memory : Memory Extra, memory.requests place ≠ none →
      ∃ memory', primitive.behind place memory = some memory')
    (back : ∀ object memory found, primitive.request object = some place →
      memory.requests place = some found → found.phase = .called →
        ∃ result, primitive.back object memory = some result) :
    ∃ next, world.callback primitive place outcome = some next := by
  obtain ⟨found, there, pending, requests, -, reaches⟩ := lawful.callback _ _ _ _ _ _ called
  have now : memory.requests place = some { found with phase := .called } := by
    rw [requests, Function.update_self]
  have free : ¬world.calling ≠ none := by simp [idle]
  unfold World.callback
  rw [if_neg free, called]
  cases stands with
  | none =>
      obtain ⟨last, ends⟩ := behind memory (by simp [now])
      exact ⟨{ world with memory := last }, by simp only [ends, Option.map_some]⟩
  | some owner =>
      obtain ⟨task, after⟩ := owner
      obtain ⟨names, object, shown, asks⟩ := reaches task after rfl
      have whole : found = { data := some task } := by
        cases found
        simp_all
      obtain ⟨entry, known, still, own⟩ := linked.told place task (whole ▸ there)
      have same : object = entry.object := by
        rw [World.objects, known] at shown
        cases shown
        rfl
      rw [same, own] at asks
      obtain ⟨⟨last, rest⟩, backs⟩ := back after memory _ asks now rfl
      simp only [known, World.taskYieldBack, World.putTask, Function.update_self, still,
        linked.quiet, Bool.true_eq_false, if_false, Bool.false_eq_true, backs, Option.map_some]
      exact ⟨_, rfl⟩

theorem cancel_proceeds (linked : Linked primitive world) {entry : Entry Object} (direct : Bool)
    (known : world.tasks task = some entry) (still : entry.yielded = true)
    (cuts : ∀ place, primitive.request entry.object = some place →
      world.memory.requests place = some { data := some task } →
        ∃ result, primitive.cancel entry.object world.memory = some result) :
    ∃ next, world.cancel primitive task direct = some next := by
  obtain ⟨-, -, -, place, own, holds⟩ := linked.waits task entry known still
  obtain ⟨⟨object, memory⟩, cut⟩ := cuts place own holds
  cases direct with
  | true =>
      simp only [World.cancel, known, World.taskYieldBack, World.putTask, Function.update_self,
        still, cut, Bool.true_eq_false, if_false, if_true, Option.map_some]
      exact ⟨_, rfl⟩
  | false =>
      simp only [World.cancel, known, World.taskYieldBack, still, cut, Bool.true_eq_false,
        Bool.false_eq_true, if_false, if_true, Option.map_some]
      exact ⟨_, rfl⟩

theorem callbackEnd_proceeds (linked : Linked primitive world) (busy : world.calling = some place)
    (behind : ∀ memory : Memory Extra, memory.requests place ≠ none →
      ∃ memory', primitive.behind place memory = some memory') :
    ∃ next, world.callbackEnd primitive = some next := by
  obtain ⟨found, there, -⟩ := linked.calling place busy
  obtain ⟨last, ends⟩ := behind world.memory (by simp [there])
  exact ⟨{ world with memory := last, calling := none }, by
    simp only [World.callbackEnd, busy, ends, Option.map_some]⟩

/-- What is asked of the object of a task: before `run`, while it waits, when its callback stands
on it, when `run` has returned, and when it has been cancelled; and what holds in between. -/
structure Contract (Object Extra : Type) where
  holds : Extra → Prop
  fresh : Object → Prop
  waits : Object → Prop
  told : Object → Prop
  ended : Object → Prop
  cut : Object → Prop

structure Meets (primitive : Primitive Object Parameters Input Outcome Action Extra)
    (contract : Contract Object Extra) : Prop where
  build : ∀ parameters memory object, contract.holds memory.extra →
    primitive.build parameters memory = some object → contract.fresh object
  run : ∀ task input object memory after memory' yields, contract.holds memory.extra →
    contract.fresh object →
      primitive.run task input object memory = some (after, memory', yields) →
        contract.holds memory'.extra ∧
          if yields then contract.waits after else contract.ended after
  callback : ∀ place outcome objects memory memory' stands, contract.holds memory.extra →
    primitive.callback place outcome objects memory = some (memory', stands) →
      contract.holds memory'.extra ∧ ∀ task object after, stands = some (task, after) →
        objects task = some object → contract.waits object → contract.told after
  back : ∀ object memory after memory', contract.holds memory.extra → contract.told object →
    primitive.back object memory = some (after, memory') →
      contract.holds memory'.extra ∧ contract.ended after
  cancel : ∀ object memory after memory', contract.holds memory.extra → contract.waits object →
    primitive.cancel object memory = some (after, memory') →
      contract.holds memory'.extra ∧ contract.cut after
  behind : ∀ place memory memory', contract.holds memory.extra →
    primitive.behind place memory = some memory' → contract.holds memory'.extra
  act : ∀ action memory memory', contract.holds memory.extra →
    primitive.act action memory = some memory' → contract.holds memory'.extra

def Kept (contract : Contract Object Extra) (entry : Entry Object) : Prop :=
  if entry.yielded then contract.waits entry.object
  else match entry.status with
    | .ready => contract.fresh entry.object
    | .completed => contract.ended entry.object ∧ entry.cancelled = 0
    | .canceled => contract.cut entry.object ∧ entry.resumed = 0
    | .running => False

structure Honoured (contract : Contract Object Extra) (world : World Object Extra) : Prop where
  holds : contract.holds world.memory.extra
  kept : ∀ task entry, world.tasks task = some entry → Kept contract entry

variable {contract : Contract Object Extra}

theorem honoured_put (honoured : Honoured contract world)
    (tasks : world'.tasks = Function.update world.tasks task (some entry))
    (holds : contract.holds world'.memory.extra) (kept : Kept contract entry) :
    Honoured contract world' := by
  refine ⟨holds, fun other there known => ?_⟩
  rw [tasks] at known
  by_cases same : other = task
  · rw [same, Function.update_self] at known
    cases known
    exact kept
  · rw [Function.update_of_ne same] at known
    exact honoured.kept other there known

theorem honoured_run (meets : Meets primitive contract) (linked : Linked primitive world)
    (honoured : Honoured contract world) {input : Input}
    (taken : world.run primitive task input = some world') : Honoured contract world' := by
  obtain ⟨entry, object, memory, yields, known, ready, runs, rfl⟩ := ran_cases taken
  have kept := honoured.kept task entry known
  have idle := ready_idle linked known ready
  have none := (linked.rests task entry known idle).fresh ready
  simp only [Kept, idle, ready, Bool.false_eq_true, if_false] at kept
  obtain ⟨holds, after⟩ := meets.run _ _ _ _ _ _ _ honoured.holds kept runs
  refine honoured_put honoured rfl holds ?_
  cases yields with
  | true => exact after
  | false => exact ⟨after, by simp only; omega⟩

theorem honoured_cancel (meets : Meets primitive contract) (linked : Linked primitive world)
    (honoured : Honoured contract world) {direct : Bool}
    (taken : world.cancel primitive task direct = some world') : Honoured contract world' := by
  obtain ⟨entry, object, memory, known, yielded, cuts, rfl⟩ := cancel_cases taken
  have kept := honoured.kept task entry known
  simp only [Kept, yielded, if_true] at kept
  obtain ⟨-, resumed, -⟩ := linked.waits task entry known yielded
  obtain ⟨holds, after⟩ := meets.cancel _ _ _ _ honoured.holds kept cuts
  exact honoured_put honoured rfl holds ⟨after, resumed⟩

theorem honoured_callback (meets : Meets primitive contract) (linked : Linked primitive world)
    (honoured : Honoured contract world) {outcome : Outcome}
    (taken : world.callback primitive place outcome = some world') :
    Honoured contract world' := by
  obtain ⟨-, ⟨memory, behind, called, ends, rfl⟩ |
    ⟨memory, owner, entry, object, after, behind, called, known, still, backs, rfl⟩⟩ :=
      callback_cases linked taken
  · obtain ⟨holds, -⟩ := meets.callback _ _ _ _ _ _ honoured.holds called
    exact ⟨meets.behind _ _ _ holds ends, honoured.kept⟩
  · obtain ⟨holds, stands⟩ := meets.callback _ _ _ _ _ _ honoured.holds called
    have kept := honoured.kept owner entry known
    simp only [Kept, still, if_true] at kept
    have shown : world.objects owner = some entry.object := by rw [World.objects, known]; rfl
    have told := stands owner entry.object object rfl shown kept
    obtain ⟨holds, ended⟩ := meets.back _ _ _ _ holds told backs
    obtain ⟨-, -, cancelled, -⟩ := linked.waits owner entry known still
    exact honoured_put honoured rfl holds ⟨ended, cancelled⟩

theorem honoured_step (meets : Meets primitive contract) (linked : Linked primitive world)
    (honoured : Honoured contract world) (taken : step primitive world label = some world') :
    Honoured contract world' := by
  cases label with
  | make task parameters =>
      simp only [step] at taken
      split at taken
      · cases taken
      · obtain ⟨object, builds, rfl⟩ := Option.map_eq_some_iff.mp taken
        exact honoured_put honoured rfl honoured.holds
          (meets.build _ _ _ honoured.holds builds)
  | destroy task =>
      simp only [step] at taken
      split at taken
      · cases taken
      · split at taken
        · cases taken
        · cases taken
          refine ⟨honoured.holds, fun other there known => ?_⟩
          by_cases same : other = task
          · subst same
            have gone := (Function.update_self ..).symm.trans known
            cases gone
          · exact honoured.kept other there ((Function.update_of_ne same ..).symm.trans known)
  | run task input => exact honoured_run meets linked honoured taken
  | cancel task direct => exact honoured_cancel meets linked honoured taken
  | callback place outcome => exact honoured_callback meets linked honoured taken
  | callbackEnd =>
      simp only [step, World.callbackEnd] at taken
      split at taken
      · cases taken
      · obtain ⟨behind, ends, rfl⟩ := Option.map_eq_some_iff.mp taken
        exact ⟨meets.behind _ _ _ honoured.holds ends, honoured.kept⟩
  | closed place =>
      simp only [step, World.closed] at taken
      split at taken
      · cases taken
      · split at taken
        · cases taken
          exact ⟨honoured.holds, honoured.kept⟩
        · cases taken
  | act action =>
      simp only [step] at taken
      obtain ⟨memory, acts, rfl⟩ := Option.map_eq_some_iff.mp taken
      exact ⟨meets.act _ _ _ honoured.holds acts, honoured.kept⟩

/-- The run lemma: links and contract hold in every state. -/
theorem honoured_along (lawful : Lawful primitive drops) (meets : Meets primitive contract)
    {extra : Extra} (start : contract.holds extra)
    {labels : List (Label Parameters Input Outcome Action)}
    (along : Along (step primitive) (Heard drops) { memory := { extra := extra } } labels)
    (run : replay (step primitive) { memory := { extra := extra } } labels = some world) :
    Linked primitive world ∧ Honoured contract world :=
  replay_invariant (fun world => Linked primitive world ∧ Honoured contract world)
    (fun _ _ _ both heard taken => ⟨linked_step lawful both.1 heard taken,
      honoured_step meets both.1 both.2 taken⟩)
    ⟨initial_linked extra, start, by simp⟩ along run

theorem heard_always (labels : List (Label Parameters Input Outcome Action))
    (world : World Object Extra) :
    Along (step primitive) (Heard fun _ => false) world labels := by
  induction labels generalizing world with
  | nil => trivial
  | cons label rest ih =>
      refine ⟨?_, ?_⟩
      · cases label <;> simp [Heard]
      · cases taken : step primitive world label with
        | none => trivial
        | some next => exact ih next

/-- The requests are used once: the callback frees them in the end. -/
structure OneTime (primitive : Primitive Object Parameters Input Outcome Action Extra) :
    Prop where
  back : ∀ object memory after memory', primitive.back object memory = some (after, memory') →
    memory'.requests = memory.requests
  cancel : ∀ object memory after memory' place found, primitive.request object = some place →
    memory.requests place = some found →
      primitive.cancel object memory = some (after, memory') →
        memory'.requests =
          Function.update memory.requests place (some { found with data := none })
  behind : ∀ place memory memory', primitive.behind place memory = some memory' →
    memory'.requests = Function.update memory.requests place none

/-- Every request is one that libuv will call back, or that is being called back. -/
def Swept (world : World Object Extra) : Prop :=
  ∀ place found, world.memory.requests place = some found →
    found.phase = .pending ∨ world.calling = some place

theorem swept_update (swept : Swept world) {request : Option Request}
    (requests : world'.memory.requests = Function.update world.memory.requests place request)
    (here : ∀ found ∈ request, found.phase = .pending ∨ world'.calling = some place)
    (calling : ∀ spot, spot ≠ place → world.calling = some spot → world'.calling = some spot) :
    Swept world' := by
  intro spot found there
  rw [requests] at there
  by_cases same : spot = place
  · rw [same, Function.update_self] at there
    rw [same]
    exact here found there
  · rw [Function.update_of_ne same] at there
    exact (swept spot found there).imp_right (calling spot same)

theorem swept_step (lawful : Lawful primitive drops) (once : OneTime primitive)
    (linked : Linked primitive world) (swept : Swept world)
    (taken : step primitive world label = some world') : Swept world' := by
  cases label with
  | make task parameters =>
      simp only [step] at taken
      split at taken
      · cases taken
      · obtain ⟨object, -, rfl⟩ := Option.map_eq_some_iff.mp taken
        exact swept
  | destroy task =>
      simp only [step] at taken
      split at taken
      · cases taken
      · split at taken
        · cases taken
        · cases taken
          exact swept
  | run task input =>
      obtain ⟨entry, object, memory, yields, -, -, runs, rfl⟩ := ran_cases taken
      have law := lawful.run _ _ _ _ _ _ _ runs
      cases yields with
      | true =>
          obtain ⟨place, -, -, requests⟩ := law
          exact swept_update swept requests (by simp) fun _ _ busy => busy
      | false =>
          intro spot found there
          exact swept spot found (law ▸ there)
  | cancel task direct =>
      obtain ⟨entry, object, memory, known, yielded, cuts, rfl⟩ := cancel_cases taken
      obtain ⟨-, -, -, place, own, holds⟩ := linked.waits task entry known yielded
      exact swept_update swept (once.cancel _ _ _ _ _ _ own holds cuts) (by simp)
        fun _ _ busy => busy
  | callback place outcome =>
      obtain ⟨quiet, ⟨memory, behind, called, ends, rfl⟩ |
        ⟨memory, owner, entry, object, after, behind, called, known, still, backs, rfl⟩⟩ :=
          callback_cases linked taken
      · obtain ⟨found, there, -, requests, -⟩ := lawful.callback _ _ _ _ _ _ called
        have gone : behind.requests = Function.update world.memory.requests place none := by
          rw [once.behind _ _ _ ends, requests, Function.update_idem]
        exact swept_update swept gone (by simp) fun _ _ busy => busy
      · obtain ⟨found, there, -, requests, -⟩ := lawful.callback _ _ _ _ _ _ called
        have same := once.back _ _ _ _ backs
        refine swept_update swept (same.trans requests) (fun _ _ => Or.inr rfl) ?_
        intro spot _ busy
        rw [quiet] at busy
        cases busy
  | callbackEnd =>
      simp only [step, World.callbackEnd] at taken
      split at taken
      · cases taken
      · rename_i place busy
        obtain ⟨behind, ends, rfl⟩ := Option.map_eq_some_iff.mp taken
        refine swept_update swept (once.behind _ _ _ ends) (by simp) ?_
        intro spot apart other
        rw [busy] at other
        cases other
        exact absurd rfl apart
  | closed place =>
      simp only [step, World.closed] at taken
      split at taken
      · cases taken
      · split at taken
        · cases taken
          exact swept_update swept rfl (by simp) fun _ _ busy => busy
        · cases taken
  | act action =>
      simp only [step] at taken
      obtain ⟨memory, acts, rfl⟩ := Option.map_eq_some_iff.mp taken
      intro spot found there
      exact swept spot found ((lawful.act _ _ _ acts) ▸ there)

theorem swept_along (lawful : Lawful primitive drops) (once : OneTime primitive) {extra : Extra}
    {labels : List (Label Parameters Input Outcome Action)}
    (along : Along (step primitive) (Heard drops) { memory := { extra := extra } } labels)
    (run : replay (step primitive) { memory := { extra := extra } } labels = some world) :
    Swept world :=
  (replay_invariant (fun world => Linked primitive world ∧ Swept world)
    (fun _ _ _ both heard taken => ⟨linked_step lawful both.1 heard taken,
      swept_step lawful once both.1 both.2 taken⟩)
    ⟨initial_linked extra, by simp [Swept]⟩ along run).2

end Links

end Cocoflow.PrimitiveLinks
