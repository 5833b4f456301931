import Mathlib.Logic.Function.Basic
import Cocoflow.LabelledRuns
import Cocoflow.PointUpdates
import Cocoflow.RedisCommands

/-!
Replies to `redis::command` tasks. A command and its cell go through phases together. The cell
outlives the command after a cancellation, and the command outlives the cell after its reply. What
the cell does not know is whether a command that has not been run still exists, and what the
command does not know is whether its reply came before it was run.
-/

namespace Cocoflow.RedisReplies

open LabelledRuns PointUpdates RedisCommands

def unanswered (world : World) (task : Nat) : Bool :=
  (((world.commands task).bind Command.req).bind world.cells).elim true Cell.pending

def abandoned (world : World) (place : Nat) : Bool :=
  ((world.cells place).bind fun cell => world.commands cell.owner).elim false fun command =>
    command.destroyed && decide (command.status = .ready)

/-- Commands are run before they are answered, if at all, and those that are not run are not
destroyed before they are answered. -/
def InTime (world : World) : Label → Prop
  | .run task => unanswered world task = true
  | .reply place _ => abandoned world place = false
  | _ => True

instance (world : World) : (label : Label) → Decidable (InTime world label)
  | .run task => inferInstanceAs (Decidable (unanswered world task = true))
  | .reply place _ => inferInstanceAs (Decidable (abandoned world place = false))
  | .construct _ _ _ _ _ | .cancel _ | .destroy _ | .returned => isTrue trivial

structure Written (command : Command) (r : Option Nat) : Prop where
  ret : ∀ value, command.ret = some value → value = if r.isSome then redisOk else redisErr
  reply : ∀ value reply, command.reply = some value → r = some reply → value = some reply

structure Waits (inside : Bool) (content : Option Nat) (cell : Cell) : Prop where
  outside : inside = false
  freed : cell.freed = !cell.pending
  content : cell.pending = true → cell.content = content

def Phase (inside : Bool) (task : Nat) (command : Command) (cell : Cell) : Prop :=
  match command.status with
  | .ready => command.answers = [] ∧ Waits inside (some task) cell
  | .running => command.answers = [] ∧ Waits inside (some task) cell ∧ cell.pending = true ∧
      command.destroyed = false
  | .completed => cell.pending = false ∧ cell.freed = !inside ∧
      ∃ r, cell.replied = some r ∧ command.answers = [r] ∧ Written command r
  | .canceled => command.answers = [] ∧ Waits inside none cell

structure Sound (world : World) : Prop where
  unfaulted : world.faults = []
  accepted : ∀ task command place, world.commands task = some command →
    command.req = some place → command.redisErr = redisOk ∧
      ∃ cell, world.cells place = some cell ∧ cell.owner = task ∧
        Phase (decide (world.inside = some place)) task command cell
  rejected : ∀ task command, world.commands task = some command → command.req = none →
    command.redisErr ≠ redisOk ∧ command.answers = []
  linked : ∀ place cell, world.cells place = some cell →
    cell.pending = true ∨ world.inside = some place →
    ∃ command, world.commands cell.owner = some command ∧ command.req = some place
  held : ∀ place, world.inside = some place → ∃ cell, world.cells place = some cell
  released : ∀ place cell, world.cells place = some cell → cell.pending = false →
    world.inside ≠ some place → cell.freed = true

section Phases

variable {inside : Bool} {task : Nat} {command : Command} {cell : Cell}

end Phases

section Exchange

variable {world next : World} {task place : Nat} {command changed : Command}
  {cell exchanged : Cell}

/-- The worlds differ at one command and its cell. -/
structure Exchange (world next : World) (task place : Nat) (command : Command) (cell : Cell) :
    Prop where
  command : next.commands task = some command
  commands : ∀ other, other ≠ task → next.commands other = world.commands other
  cell : next.cells place = some cell
  cells : ∀ other, other ≠ place → next.cells other = world.cells other
  inside : ∀ other, other ≠ place → (next.inside = some other ↔ world.inside = some other)
  faults : next.faults = world.faults

theorem sound_exchange (sound : Sound world) (known : world.commands task = some command)
    (request : command.req = some place) (entry : world.cells place = some cell)
    (exchange : Exchange world next task place changed exchanged)
    (sameReq : changed.req = command.req) (sameErr : changed.redisErr = command.redisErr)
    (sameOwner : exchanged.owner = cell.owner)
    (phase : Phase (decide (next.inside = some place)) task changed exchanged)
    (freed : exchanged.pending = false → next.inside ≠ some place → exchanged.freed = true) :
    Sound next := by
  obtain ⟨err, found, same, owner, -⟩ := sound.accepted task command place known request
  cases entry.symm.trans same
  have changedReq : changed.req = some place := sameReq.trans request
  constructor
  case unfaulted =>
      rw [exchange.faults]
      exact sound.unfaulted
  case accepted =>
      intro other found where_ present wanted
      by_cases own : other = task
      · subst own
        cases exchange.command.symm.trans present
        cases changedReq.symm.trans wanted
        exact ⟨sameErr.trans err, exchanged, exchange.cell, sameOwner.trans owner, phase⟩
      · rw [exchange.commands other own] at present
        obtain ⟨fine, theirs, held, theirOwner, theirPhase⟩ :=
          sound.accepted other found where_ present wanted
        -- the owner of a cell tells two commands apart
        have apart : where_ ≠ place := by
          rintro rfl
          cases entry.symm.trans held
          exact own (theirOwner.symm.trans owner)
        refine ⟨fine, theirs, (exchange.cells where_ apart).trans held, theirOwner, ?_⟩
        rwa [decide_eq_decide.mpr (exchange.inside where_ apart)]
  case rejected =>
      intro other found present none_
      by_cases own : other = task
      · subst own
        cases exchange.command.symm.trans present
        cases changedReq.symm.trans none_
      · rw [exchange.commands other own] at present
        exact sound.rejected other found present none_
  case linked =>
      intro where_ found present waiting
      by_cases own : where_ = place
      · subst own
        cases exchange.cell.symm.trans present
        refine ⟨changed, ?_, changedReq⟩
        rw [sameOwner, owner]
        exact exchange.command
      · rw [exchange.cells where_ own] at present
        rw [exchange.inside where_ own] at waiting
        obtain ⟨theirs, theirCommand, theirReq⟩ := sound.linked where_ found present waiting
        have apart : found.owner ≠ task := by
          intro same
          rw [same] at theirCommand
          cases known.symm.trans theirCommand
          cases request.symm.trans theirReq
          exact own rfl
        exact ⟨theirs, (exchange.commands _ apart).trans theirCommand, theirReq⟩
  case held =>
      intro where_ here
      by_cases own : where_ = place
      · exact ⟨exchanged, own ▸ exchange.cell⟩
      · obtain ⟨found, present⟩ := sound.held where_ ((exchange.inside where_ own).mp here)
        exact ⟨found, (exchange.cells where_ own).trans present⟩
  case released =>
      intro where_ found present answered outside
      by_cases own : where_ = place
      · subst own
        cases exchange.cell.symm.trans present
        exact freed answered outside
      · rw [exchange.cells where_ own] at present
        exact sound.released where_ found present answered
          fun here => outside ((exchange.inside where_ own).mpr here)

theorem exchange_command (entry : world.cells place = some cell) :
    Exchange world (world.putCommand task changed) task place changed cell := by
  constructor
  case command => exact Function.update_self ..
  case commands =>
      intro other own
      exact Function.update_of_ne own ..
  case cell => exact entry
  case cells =>
      intro other _
      rfl
  case inside =>
      intro other _
      exact Iff.rfl
  case faults => rfl

theorem exchange_cell (known : world.commands task = some command) :
    Exchange world (world.putCell place exchanged) task place command exchanged := by
  constructor
  case command => exact known
  case commands =>
      intro other _
      rfl
  case cell => exact Function.update_self ..
  case cells =>
      intro other own
      exact Function.update_of_ne own ..
  case inside =>
      intro other _
      exact Iff.rfl
  case faults => rfl

theorem exchange_both : Exchange world ((world.putCell place exchanged).putCommand task changed)
    task place changed exchanged := by
  constructor
  case command => exact Function.update_self ..
  case commands =>
      intro other own
      exact Function.update_of_ne own ..
  case cell => exact Function.update_self ..
  case cells =>
      intro other own
      exact Function.update_of_ne own ..
  case inside =>
      intro other _
      exact Iff.rfl
  case faults => rfl

theorem exchange_inside (exchange : Exchange world next task place changed exchanged)
    (inside : Option Nat)
    (others : ∀ other, other ≠ place → (inside = some other ↔ world.inside = some other)) :
    Exchange world { next with inside := inside } task place changed exchanged :=
  { exchange with inside := others }

theorem sound_rejected (sound : Sound world) (known : world.commands task = some command)
    (request : command.req = none) (sameReq : changed.req = none)
    (sameErr : changed.redisErr = command.redisErr) (sameAnswers : changed.answers = []) :
    Sound (world.putCommand task changed) := by
  constructor
  case unfaulted => exact sound.unfaulted
  case accepted =>
      intro other found where_ present wanted
      rcases update_some present with ⟨-, fresh⟩ | ⟨-, old⟩
      · cases fresh
        cases sameReq.symm.trans wanted
      · exact sound.accepted other found where_ old wanted
  case rejected =>
      intro other found present none_
      rcases update_some present with ⟨-, fresh⟩ | ⟨-, old⟩
      · cases fresh
        exact ⟨sameErr ▸ (sound.rejected task command known request).1, sameAnswers⟩
      · exact sound.rejected other found old none_
  case linked =>
      intro where_ found present waiting
      obtain ⟨theirs, theirCommand, theirReq⟩ := sound.linked where_ found present waiting
      have apart : found.owner ≠ task := by
        intro same
        rw [same, known] at theirCommand
        cases theirCommand
        cases request.symm.trans theirReq
      exact ⟨theirs, (Function.update_of_ne apart ..).trans theirCommand, theirReq⟩
  case held => exact sound.held
  case released => exact sound.released

end Exchange

section Steps

variable {world next : World} {task place : Nat} {command : Command} {cell : Cell}

theorem useCell_allocated (allocated : cell.freed = false) : world.useCell place cell = world := by
  simp [World.useCell, allocated]

theorem clearCell_allocated (entry : world.cells place = some cell) (allocated : cell.freed = false) :
    world.clearCell place = some (world.putCell place { cell with content := none }) := by
  simp [World.clearCell, World.useCell, entry, allocated]

theorem freeCell_allocated (entry : world.cells place = some cell) (allocated : cell.freed = false) :
    world.freeCell place = some (world.putCell place { cell with freed := true }) := by
  simp [World.freeCell, World.useCell, entry, allocated]

theorem run_accepted (known : world.commands task = some command)
    (ready : command.status = .ready ∧ command.destroyed = false)
    (err : command.redisErr = redisOk) (request : command.req = some place)
    (entry : world.cells place = some cell) (allocated : cell.freed = false)
    (content : cell.content = some task) :
    world.run task = some (world.putCommand task { command with status := .running }) := by
  simp [World.run, known, ready, err, request, entry, World.useCell, allocated, content]

theorem cancel_running (known : world.commands task = some command)
    (running : command.status = .running) (request : command.req = some place)
    (entry : world.cells place = some cell) (allocated : cell.freed = false) :
    world.cancel task = some ((world.putCell place { cell with content := none }).putCommand task
      { command with status := .canceled }) := by
  simp [World.cancel, known, running, request, clearCell_allocated entry allocated]

theorem sound_run (sound : Sound world) (admitted : InTime world (.run task))
    (taken : world.run task = some next) : Sound next := by
  have result := taken
  unfold World.run at taken
  split at taken
  · cases taken
  · rename_i command known
    split at taken
    · rename_i ready
      cases request : command.req with
      | none =>
          have rejected := sound.rejected task command known request
          rw [if_pos rejected.1] at taken
          cases taken
          exact sound_rejected sound known request request rfl rejected.2
      | some place =>
          obtain ⟨err, cell, entry, owner, phase⟩ :=
            sound.accepted task command place known request
          have pending : cell.pending = true := by
            simpa [InTime, unanswered, known, request, entry] using admitted
          simp only [Phase, ready.1] at phase
          obtain ⟨answers, waits⟩ := phase
          have allocated : cell.freed = false := by simp [waits.freed, pending]
          rw [run_accepted known ready err request entry allocated (waits.content pending)] at result
          cases result
          refine sound_exchange sound known request entry (exchange_command entry) rfl rfl rfl
            ?_ ?_
          · exact ⟨answers, waits, pending, ready.2⟩
          · intro answered
            cases answered.symm.trans pending
    · cases taken

theorem sound_cancel (sound : Sound world) (taken : world.cancel task = some next) :
    Sound next := by
  have result := taken
  unfold World.cancel at taken
  split at taken
  · cases taken
  · rename_i command known
    split at taken
    · rename_i running
      cases request : command.req with
      | none => simp [request] at taken
      | some place =>
          obtain ⟨err, cell, entry, owner, phase⟩ :=
            sound.accepted task command place known request
          simp only [Phase, running] at phase
          obtain ⟨answers, waits, pending, alive⟩ := phase
          have allocated : cell.freed = false := by simp [waits.freed, pending]
          rw [cancel_running known running request entry allocated] at result
          cases result
          refine sound_exchange sound known request entry exchange_both rfl rfl rfl ?_ ?_
          · exact ⟨answers, waits.outside, waits.freed, fun _ => rfl⟩
          · intro answered
            cases answered.symm.trans pending
    · cases taken

theorem phase_destroyed {inside : Bool} (phase : Phase inside task command cell)
    (ended : command.status ≠ .running) :
    Phase inside task { command with destroyed := true } cell := by
  unfold Phase at phase ⊢
  dsimp only
  split at phase
  · exact phase
  · rename_i running
    exact absurd running ended
  · obtain ⟨answered, freed, r, replied, answers, written⟩ := phase
    exact ⟨answered, freed, r, replied, answers, written.ret, written.reply⟩
  · exact phase

theorem sound_destroy (sound : Sound world) (taken : world.destroy task = some next) :
    Sound next := by
  unfold World.destroy at taken
  split at taken
  · cases taken
  · rename_i command known
    split at taken
    · rename_i ended
      cases taken
      rcases Option.eq_none_or_eq_some command.req with request | ⟨place, request⟩
      · exact sound_rejected sound known request request rfl
          (sound.rejected task command known request).2
      · obtain ⟨err, cell, entry, owner, phase⟩ :=
          sound.accepted task command place known request
        refine sound_exchange sound known request entry (exchange_command entry) rfl rfl rfl ?_ ?_
        · exact phase_destroyed phase ended.1
        · exact sound.released place cell entry
    · cases taken

@[simp] theorem putCell_putCell (first second : Cell) :
    (world.putCell place first).putCell place second = world.putCell place second := by
  simp [World.putCell]

@[simp] theorem putCell_cells (cell : Cell) : (world.putCell place cell).cells place = some cell :=
  Function.update_self ..

@[simp] theorem answered_req (command : Command) (r : Option Nat) :
    (World.answered command r).req = command.req := by
  cases r <;> rfl

@[simp] theorem answered_redisErr (command : Command) (r : Option Nat) :
    (World.answered command r).redisErr = command.redisErr := by
  cases r <;> rfl

@[simp] theorem answered_answers (command : Command) (r : Option Nat) :
    (World.answered command r).answers = command.answers ++ [r] := by
  cases r <;> rfl

theorem written_answered (command : Command) (r : Option Nat) :
    Written { World.answered command r with status := .completed } r := by
  constructor
  · intro value present
    cases r with
    | none | some reply =>
        obtain ⟨old, -, rfl⟩ := Option.map_eq_some_iff.mp present
        rfl
  · intro value reply present same
    subst same
    obtain ⟨old, -, rfl⟩ := Option.map_eq_some_iff.mp present
    rfl

def replied (cell : Cell) (r : Option Nat) : Cell :=
  { cell with pending := false, replied := some r }

theorem deliver_pending {r : Option Nat} (entry : world.cells place = some cell)
    (pending : cell.pending = true) (outside : world.inside = none) :
    world.deliver place r = (world.putCell place (replied cell r)).commandCb place r := by
  simp [World.deliver, entry, pending, outside, replied]

theorem commandCb_cleared {r : Option Nat} (entry : world.cells place = some cell)
    (allocated : cell.freed = false) (content : cell.content = none) :
    world.commandCb place r = some (world.putCell place { cell with freed := true }) := by
  have freed := freeCell_allocated entry allocated
  rw [content] at freed
  simp only [World.commandCb, entry, content, useCell_allocated allocated]
  exact freed

theorem commandCb_ready {r : Option Nat} (entry : world.cells place = some cell)
    (allocated : cell.freed = false) (content : cell.content = some task)
    (known : world.commands task = some command) (ready : command.status = .ready) :
    world.commandCb place r =
      some ((if command.destroyed then world.fault (.destroyedTask task) else world).putCell place
        { cell with content := none, freed := true }) := by
  generalize looked : (if command.destroyed then world.fault (.destroyedTask task) else world) =
    read
  have here : read.cells place = some cell := by
    rw [← looked]
    split <;> exact entry
  have cleared : (read.putCell place { cell with content := none }).cells place =
      some { cell with content := none } := putCell_cells _
  have freed := freeCell_allocated cleared allocated
  rw [putCell_putCell] at freed
  simp only [World.commandCb, entry, content, useCell_allocated allocated, known, looked, ready,
    if_false, reduceCtorEq, clearCell_allocated here allocated, Option.bind_some]
  exact freed

theorem commandCb_running {r : Option Nat} (entry : world.cells place = some cell)
    (allocated : cell.freed = false) (content : cell.content = some task)
    (known : world.commands task = some command) (alive : command.destroyed = false)
    (running : command.status = .running) (request : command.req = some place) :
    world.commandCb place r =
      some { (world.putCell place { cell with content := none }).putCommand task
        { World.answered command r with status := .completed } with inside := some place } := by
  have found : (world.putCommand task (World.answered command r)).commands task =
      some (World.answered command r) := Function.update_self ..
  have here : (world.putCommand task (World.answered command r)).cells place = some cell := entry
  have back : (World.answered command r).req = some place := (answered_req ..).trans request
  simp only [World.commandCb, entry, content, useCell_allocated allocated, known, alive, running,
    Bool.false_eq_true, if_false, if_true, World.runBack, found, back,
    clearCell_allocated here allocated, Option.map_some]
  simp [World.putCommand, World.putCell, Function.update_idem]

theorem pending_cases (sound : Sound world) (entry : world.cells place = some cell)
    (pending : cell.pending = true) :
    ∃ command, world.commands cell.owner = some command ∧ command.req = some place ∧
      command.redisErr = redisOk ∧ cell.freed = false ∧ command.answers = [] ∧
      ((command.status = .ready ∧ cell.content = some cell.owner) ∨
        (command.status = .running ∧ cell.content = some cell.owner ∧
          command.destroyed = false) ∨
        (command.status = .canceled ∧ cell.content = none)) := by
  obtain ⟨command, known, request⟩ := sound.linked place cell entry (Or.inl pending)
  obtain ⟨err, found, same, -, phase⟩ := sound.accepted _ command place known request
  cases entry.symm.trans same
  unfold Phase at phase
  split at phase
  · rename_i ready
    obtain ⟨answers, waits⟩ := phase
    exact ⟨command, known, request, err, by simp [waits.freed, pending], answers,
      Or.inl ⟨ready, waits.content pending⟩⟩
  · rename_i running
    obtain ⟨answers, waits, -, alive⟩ := phase
    exact ⟨command, known, request, err, by simp [waits.freed, pending], answers,
      Or.inr (Or.inl ⟨running, waits.content pending, alive⟩)⟩
  · cases pending.symm.trans phase.1
  · rename_i canceled
    obtain ⟨answers, waits⟩ := phase
    exact ⟨command, known, request, err, by simp [waits.freed, pending], answers,
      Or.inr (Or.inr ⟨canceled, waits.content pending⟩)⟩

theorem sound_reply {r : Option Nat} (sound : Sound world)
    (admitted : InTime world (.reply place r)) (taken : world.deliver place r = some next) :
    Sound next := by
  have result := taken
  unfold World.deliver at taken
  split at taken
  · cases taken
  · rename_i cell entry
    split at taken
    · rename_i due
      obtain ⟨pending, outside⟩ := due
      obtain ⟨command, known, request, err, allocated, answers, phase⟩ :=
        pending_cases sound entry pending
      have here : (world.putCell place (replied cell r)).cells place = some (replied cell r) :=
        putCell_cells _
      have apart : ∀ other, other ≠ place →
          ((some place = some other) ↔ (world.inside = some other)) := by
        intro other own
        simp [outside, Ne.symm own]
      rw [deliver_pending entry pending outside] at result
      rcases phase with ⟨ready, content⟩ | ⟨running, content, alive⟩ | ⟨canceled, content⟩
      · -- not run: nobody waits, and the object still exists
        have alive : command.destroyed = false := by
          simpa [InTime, abandoned, entry, known, ready] using admitted
        rw [commandCb_ready here allocated content known ready, alive, if_neg Bool.false_ne_true,
          putCell_putCell] at result
        cases result
        refine sound_exchange sound known request entry (exchange_cell known) rfl rfl rfl ?_ ?_
        · simp only [Phase, ready]
          exact ⟨answers, by simp [World.putCell, outside], rfl, fun none_ => by cases none_⟩
        · intro _ _
          rfl
      · -- suspended: the command runs to its end inside the callback
        rw [commandCb_running here allocated content known alive running request,
          putCell_putCell] at result
        cases result
        refine sound_exchange sound known request entry
          (exchange_inside exchange_both (some place) apart) (answered_req ..)
          (answered_redisErr ..) rfl ?_ ?_
        · have written := written_answered command r
          refine ⟨rfl, by simp [replied, allocated], r, rfl, ?_, written⟩
          simp [answers]
        · intro _ away
          exact absurd rfl away
      · -- cancelled: the object may be gone, but `cancel` has cleared the cell
        rw [commandCb_cleared here allocated content, putCell_putCell] at result
        cases result
        refine sound_exchange sound known request entry (exchange_cell known) rfl rfl rfl ?_ ?_
        · simp only [Phase, canceled]
          exact ⟨answers, by simp [World.putCell, outside], rfl, fun none_ => by cases none_⟩
        · intro _ _
          rfl
    · cases taken

theorem sound_returned (sound : Sound world) (taken : world.returned = some next) :
    Sound next := by
  unfold World.returned at taken
  split at taken
  · cases taken
  · rename_i place inside
    obtain ⟨cell, entry⟩ := sound.held place inside
    obtain ⟨command, known, request⟩ := sound.linked place cell entry (Or.inr inside)
    obtain ⟨err, found, same, -, phase⟩ := sound.accepted _ command place known request
    cases entry.symm.trans same
    rw [decide_eq_true inside] at phase
    -- only a command that has been resumed leaves its callback open
    cases status : command.status with
    | ready =>
        simp only [Phase, status] at phase
        cases phase.2.outside
    | running =>
        simp only [Phase, status] at phase
        cases phase.2.1.outside
    | canceled =>
        simp only [Phase, status] at phase
        cases phase.2.outside
    | completed =>
        simp only [Phase, status] at phase
        obtain ⟨answered, allocated, given⟩ := phase
        have here : ({ world with inside := none } : World).cells place = some cell := entry
        rw [freeCell_allocated here allocated] at taken
        cases taken
        refine sound_exchange sound known request entry
          (exchange_inside (exchange_cell known) none ?_) rfl rfl rfl ?_ ?_
        · intro other own
          simp [inside, Ne.symm own]
        · simp only [Phase, status]
          exact ⟨answered, rfl, given⟩
        · intro _ _
          rfl

theorem sound_construct {ret reply : Bool} {err : Int} (sound : Sound world)
    (taken : world.construct task place ret reply err = some next) : Sound next := by
  unfold World.construct at taken
  split at taken
  · rename_i fresh unused
    cases taken
    -- the new cell is not the one whose callback runs
    have outside : world.inside ≠ some place := by
      intro inside
      obtain ⟨cell, entry⟩ := sound.held place inside
      cases unused.symm.trans entry
    constructor
    case unfaulted => exact sound.unfaulted
    case accepted =>
        intro other found where_ present wanted
        rcases update_some present with ⟨rfl, made⟩ | ⟨-, old⟩
        · cases made
          by_cases ok : err = redisOk
          · simp only [ok, ne_eq, not_true_eq_false, if_false, Option.some.injEq] at wanted
            subst wanted
            refine ⟨ok, _, Function.update_self .., rfl, rfl, ?_, ?_, ?_⟩
            · exact decide_eq_false outside
            · simp [ok]
            · intro _
              rfl
          · simp [ok] at wanted
        · obtain ⟨fine, theirs, held, owner, phase⟩ :=
            sound.accepted other found where_ old wanted
          have apart : where_ ≠ place := by
            rintro rfl
            cases unused.symm.trans held
          exact ⟨fine, theirs, (Function.update_of_ne apart ..).trans held, owner, phase⟩
    case rejected =>
        intro other found present none_
        rcases update_some present with ⟨rfl, made⟩ | ⟨-, old⟩
        · cases made
          by_cases ok : err = redisOk
          · simp [ok] at none_
          · exact ⟨ok, rfl⟩
        · exact sound.rejected other found old none_
    case linked =>
        intro where_ found present waiting
        rcases update_some present with ⟨rfl, made⟩ | ⟨-, old⟩
        · cases made
          have pending := waiting.resolve_right outside
          have ok : err = redisOk := by simpa using pending
          exact ⟨_, Function.update_self .., by simp [ok]⟩
        · obtain ⟨theirs, known, request⟩ := sound.linked where_ found old waiting
          have apart : found.owner ≠ task := by
            intro same
            rw [same, fresh] at known
            cases known
          exact ⟨theirs, (Function.update_of_ne apart ..).trans known, request⟩
    case held =>
        intro where_ inside
        obtain ⟨cell, entry⟩ := sound.held where_ inside
        have apart : where_ ≠ place := by
          rintro rfl
          exact outside inside
        exact ⟨cell, (Function.update_of_ne apart ..).trans entry⟩
    case released =>
        intro where_ found present answered away
        rcases update_some present with ⟨rfl, made⟩ | ⟨-, old⟩
        · cases made
          simpa using answered
        · exact sound.released where_ found old answered away
  · cases taken

theorem sound_step (world : World) (label : Label) (next : World) (sound : Sound world)
    (admitted : InTime world label) (taken : step world label = some next) : Sound next := by
  cases label with
  | construct task place ret reply err => exact sound_construct sound taken
  | run task => exact sound_run sound admitted taken
  | cancel task => exact sound_cancel sound taken
  | destroy task => exact sound_destroy sound taken
  | reply place r => exact sound_reply sound admitted taken
  | returned => exact sound_returned sound taken

end Steps

theorem sound_new : Sound {} := by
  constructor
  case unfaulted => rfl
  case accepted =>
      intro task command place known
      cases known
  case rejected =>
      intro task command known
      cases known
  case linked =>
      intro place cell entry
      cases entry
  case held =>
      intro place inside
      cases inside
  case released =>
      intro place cell entry
      cases entry

/-- In such a run hiredis can call back for every command that it holds: no `CHECK` stops it. -/
theorem reply_possible (labels : List Label) (last : World)
    (run : replay step {} labels = some last) (admitted : Along step InTime {} labels)
    (place : Nat) (cell : Cell) (entry : last.cells place = some cell)
    (pending : cell.pending = true) (outside : last.inside = none) (r : Option Nat) :
    ∃ next, step last (.reply place r) = some next := by
  have sound := replay_invariant Sound sound_step sound_new admitted run
  obtain ⟨command, known, request, err, allocated, answers, phase⟩ :=
    pending_cases sound entry pending
  have here : (last.putCell place (replied cell r)).cells place = some (replied cell r) :=
    putCell_cells _
  show ∃ next, last.deliver place r = some next
  rw [deliver_pending entry pending outside]
  rcases phase with ⟨ready, content⟩ | ⟨running, content, alive⟩ | ⟨canceled, content⟩
  · exact ⟨_, commandCb_ready here allocated content known ready⟩
  · exact ⟨_, commandCb_running here allocated content known alive running request⟩
  · exact ⟨_, commandCb_cleared here allocated content⟩

/-- `command_cb` touches a command that was destroyed without having been run. -/
example : ((replay step {} [.construct 0 0 true true redisOk, .destroy 0, .reply 0 none]).map
    World.faults) = some [.destroyedTask 0] := by
  decide

end Cocoflow.RedisReplies
