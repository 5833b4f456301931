import Mathlib.Logic.Function.Basic
import Cocoflow.LabelledRuns
import Cocoflow.PointUpdates
import Cocoflow.RedisConnection

/-!
The timers of an auto-connecting `redis` object. The object goes through stages, and a stage says
which timer is pending and which context can still call back. The `timer` field keeps the handle
that the last callback has closed, so `~redis` must find a pending one.
-/

namespace Cocoflow.RedisTimers

open LabelledRuns PointUpdates RedisConnection

/-- No event concerns a timer that has been closed before. -/
def Proper : List TimerEvent → Prop
  | [] => True
  | event :: earlier => .closed event.timer ∉ earlier ∧ Proper earlier

instance decidableProper : (events : List TimerEvent) → Decidable (Proper events)
  | [] => isTrue trivial
  | event :: earlier =>
      have := decidableProper earlier
      inferInstanceAs (Decidable (.closed event.timer ∉ earlier ∧ Proper earlier))

def ProperTimers (world : World) : Prop := Proper world.events

instance (world : World) : Decidable (ProperTimers world) := decidableProper world.events

/-- The connection of the object has been made, and not been lost. -/
def connected (world : World) : Bool :=
  (world.redis.context.bind world.contexts).elim false Context.connected

/-- The object is destroyed neither while it is connected nor inside `auto_reconnect_next_cb`. -/
def Unconnected (world : World) : Label → Prop
  | .destroy => connected world = false ∧ world.freeing = false
  | _ => True

instance (world : World) : (label : Label) → Decidable (Unconnected world label)
  | .destroy => inferInstanceAs (Decidable (connected world = false ∧ world.freeing = false))
  | .autoConnect _ _ | .connectResult _ _ | .disconnect _ | .expire _ _ | .freed _ =>
      isTrue trivial

/-- Where the object is. `opened` says that the context of the last attempt, which has timed out,
can still call back. -/
inductive Stage where
  | idle
  | refused (context : Nat)
  | connecting (context timer : Nat)
  | waiting (context timer : Nat) (opened : Bool)
  | connected (context timer : Nat)
  | freeing (context timer : Nat)
  | destroyed (context timer : Option Nat)

namespace Stage

def context : Stage → Option Nat
  | .idle => none
  | .refused context => some context
  | .connecting context _ => some context
  | .waiting context _ _ => some context
  | .connected context _ => some context
  | .freeing context _ => some context
  | .destroyed context _ => context

def timer : Stage → Option Nat
  | .idle => none
  | .refused _ => none
  | .connecting _ timer => some timer
  | .waiting _ timer _ => some timer
  | .connected _ timer => some timer
  | .freeing _ timer => some timer
  | .destroyed _ timer => timer

def pending : Stage → Nat → Option TimerCallback
  | .connecting _ timer => Function.update (fun _ => none) timer (some .connectTimeout)
  | .waiting _ timer _ => Function.update (fun _ => none) timer (some .reconnectNext)
  | _ => fun _ => none

def contexts : Stage → Nat → Option Context
  | .refused context => Function.update (fun _ => none) context (some ⟨false, false, false⟩)
  | .connecting context _ => Function.update (fun _ => none) context (some ⟨true, true, false⟩)
  | .waiting context _ true =>
      Function.update (fun _ => none) context (some ⟨true, true, false⟩)
  | .connected context _ => Function.update (fun _ => none) context (some ⟨true, true, true⟩)
  | _ => fun _ => none

def isFreeing : Stage → Bool
  | .freeing _ _ => true
  | _ => false

def isDestroyed : Stage → Bool
  | .destroyed _ _ => true
  | _ => false

/-- The timer field is the handle of a closed timer. -/
def Stale : Stage → Nat → Prop
  | .connected _ timer, stale => timer = stale
  | .freeing _ timer, stale => timer = stale
  | _, _ => False

def Old : Stage → Prop
  | .waiting _ _ true => True
  | _ => False

end Stage

/-- Timers are numbered below `count`, and those that are pending have not been closed. -/
structure Orderly (count : Nat) (pending : Nat → Option TimerCallback)
    (events : List TimerEvent) : Prop where
  proper : Proper events
  known : ∀ event ∈ events, event.timer < count
  running : ∀ timer callback, pending timer = some callback →
    timer < count ∧ .closed timer ∉ events

structure Represents (world : World) (stage : Stage) : Prop where
  orderly : Orderly world.timerCount world.pending world.events
  context : world.redis.context = stage.context
  timer : world.redis.timer = stage.timer
  pending : world.pending = stage.pending
  contexts : world.contexts = stage.contexts
  freeing : world.freeing = stage.isFreeing
  destroyed : world.destroyed = stage.isDestroyed
  stale : ∀ timer, stage.Stale timer → .closed timer ∈ world.events
  old : stage.Old → world.redis.oldOpened = true

section Events

variable {count timer after : Nat} {callback : TimerCallback} {events : List TimerEvent}
  {pending : Nat → Option TimerCallback}

@[simp] theorem update_none_none (place : Nat) {Value : Type} :
    Function.update (fun _ : Nat => (none : Option Value)) place none = fun _ => none :=
  Function.update_eq_self place fun _ => none

theorem orderly_started (orderly : Orderly count pending events) :
    Orderly (count + 1) (Function.update pending count (some callback))
      (.started count callback after :: events) := by
  have fresh : ∀ event ∈ events, event.timer ≠ count := fun event member =>
    Nat.ne_of_lt (orderly.known event member)
  constructor
  case proper => exact ⟨fun member => fresh _ member rfl, orderly.proper⟩
  case known =>
      intro event member
      rcases List.mem_cons.mp member with rfl | earlier
      · exact Nat.lt_succ_self count
      · exact Nat.lt_succ_of_lt (orderly.known event earlier)
  case running =>
      intro place found present
      by_cases own : place = count
      · subst own
        refine ⟨Nat.lt_succ_self place, fun member => ?_⟩
        rcases List.mem_cons.mp member with same | earlier
        · cases same
        · exact fresh _ earlier rfl
      · rw [Function.update_of_ne own] at present
        obtain ⟨below, opened⟩ := orderly.running place found present
        refine ⟨Nat.lt_succ_of_lt below, fun member => ?_⟩
        rcases List.mem_cons.mp member with same | earlier
        · cases same
        · exact opened earlier

theorem orderly_stopped (event : TimerEvent) (orderly : Orderly count pending events)
    (below : event.timer < count) (opened : .closed event.timer ∉ events) :
    Orderly count (Function.update pending event.timer none) (event :: events) := by
  constructor
  case proper => exact ⟨opened, orderly.proper⟩
  case known =>
      intro other member
      rcases List.mem_cons.mp member with rfl | earlier
      · exact below
      · exact orderly.known other earlier
  case running =>
      intro place found here
      by_cases own : place = event.timer
      · rw [own, Function.update_self] at here
        cases here
      · rw [Function.update_of_ne own] at here
        obtain ⟨inside, still⟩ := orderly.running place found here
        refine ⟨inside, fun member => ?_⟩
        rcases List.mem_cons.mp member with same | earlier
        · apply own
          rw [← same]
          rfl
        · exact still earlier

end Events

section Transitions

variable {world next : World} {context timer : Nat}

structure Resting (world : World) : Prop where
  orderly : Orderly world.timerCount world.pending world.events
  pending : world.pending = fun _ => none
  freeing : world.freeing = false
  destroyed : world.destroyed = false

theorem represents_connectComing {oldOpened : Bool} (opened : Bool) (resting : Resting world)
    (known : world.redis.context = some context)
    (contexts : world.contexts = (Stage.waiting context world.timerCount opened).contexts)
    (old : opened = true → oldOpened = true) :
    Represents (world.connectComing oldOpened) (.waiting context world.timerCount opened) := by
  constructor
  case orderly => exact orderly_started resting.orderly
  case context => exact known
  case timer => rfl
  case pending =>
      show Function.update world.pending _ _ = _
      rw [resting.pending]
      rfl
  case contexts => exact contexts
  case freeing => exact resting.freeing
  case destroyed => exact resting.destroyed
  case stale =>
      intro stale false_
      cases false_
  case old =>
      intro isOld
      cases opened with
      | true => exact old rfl
      | false => cases isOld

theorem represents_connectNow {always refused : Bool} (resting : Resting world)
    (contexts : world.contexts = fun _ => none)
    (first : always = false → world.redis.timer = none)
    (taken : world.connectNow always refused = some next) :
    ∃ stage, Represents next stage := by
  unfold World.connectNow at taken
  cases refused with
  | true =>
      cases always with
      | true => cases taken
      | false =>
          cases taken
          exists .refused world.contextCount
          constructor
          case orderly => exact resting.orderly
          case context => rfl
          case timer => exact first rfl
          case pending => exact resting.pending
          case contexts =>
              show Function.update world.contexts _ _ = _
              rw [contexts]
              rfl
          case freeing => exact resting.freeing
          case destroyed => exact resting.destroyed
          case stale =>
              intro stale false_
              cases false_
          case old =>
              intro false_
              cases false_
  | false =>
      cases taken
      exists .connecting world.contextCount world.timerCount
      constructor
      case orderly => exact orderly_started resting.orderly
      case context => rfl
      case timer => rfl
      case pending =>
          show Function.update world.pending _ _ = _
          rw [resting.pending]
          rfl
      case contexts =>
          show Function.update world.contexts _ _ = _
          rw [contexts]
          rfl
      case freeing => exact resting.freeing
      case destroyed => exact resting.destroyed
      case stale =>
          intro stale false_
          cases false_
      case old =>
          intro false_
          cases false_

/-- The timer of the field can be closed, and no other one is pending. -/
structure Closable (world : World) (timer : Nat) : Prop where
  orderly : Orderly world.timerCount world.pending world.events
  field : world.redis.timer = some timer
  below : timer < world.timerCount
  opened : .closed timer ∉ world.events
  only : Function.update world.pending timer none = fun _ => none
  freeing : world.freeing = false
  destroyed : world.destroyed = false

theorem closeTimer_spec (closable : Closable world timer) :
    ∃ next, world.closeTimer = some next ∧ Resting next ∧ next.redis = world.redis ∧
      next.contexts = world.contexts ∧ .closed timer ∈ next.events := by
  refine ⟨world.uvClose timer, ?_, ⟨?_, ?_, ?_, ?_⟩, rfl, rfl, List.mem_cons_self⟩
  · rw [World.closeTimer, closable.field]
  · exact orderly_stopped (.closed timer) closable.orderly closable.below closable.opened
  · exact closable.only
  · exact closable.freeing
  · exact closable.destroyed

def Stage.Awaits (timer : Nat) (callback : TimerCallback) : Stage → Prop
  | .connecting _ own => own = timer ∧ callback = .connectTimeout
  | .waiting _ own _ => own = timer ∧ callback = .reconnectNext
  | _ => False

theorem pending_awaits {stage : Stage} {callback : TimerCallback}
    (represents : Represents world stage) :
    world.pending timer = some callback ↔ stage.Awaits timer callback := by
  rw [represents.pending]
  cases stage with
  | connecting context own | waiting context own opened =>
      simp only [Stage.pending, Stage.Awaits, Function.update_apply]
      by_cases same : timer = own
      · simp [same, eq_comm]
      · simp [same, Ne.symm same]
  | idle | refused context | connected context own | freeing context own
  | destroyed context own => simp [Stage.pending, Stage.Awaits]

theorem closable_of_awaits {stage : Stage} {callback : TimerCallback}
    (represents : Represents world stage) (awaits : stage.Awaits timer callback) :
    Closable world timer := by
  obtain ⟨below, opened⟩ := represents.orderly.running timer callback
    ((pending_awaits represents).mpr awaits)
  have field := represents.timer
  have pending := represents.pending
  have freeing := represents.freeing
  have destroyed := represents.destroyed
  cases stage with
  | connecting context own | waiting context own opened =>
      obtain ⟨rfl, -⟩ := awaits
      refine ⟨represents.orderly, field, below, opened, ?_, freeing, destroyed⟩
      rw [pending]
      simp [Stage.pending]
  | idle | refused context | connected context own | freeing context own
  | destroyed context own => cases awaits

theorem closable_called (closable : Closable world timer) :
    Closable ({ world with
      pending := Function.update world.pending timer none
      events := .called timer :: world.events } : World) timer := by
  refine ⟨?_, closable.field, closable.below, ?_, ?_, closable.freeing, closable.destroyed⟩
  · exact orderly_stopped (.called timer) closable.orderly closable.below closable.opened
  · intro member
    rcases List.mem_cons.mp member with same | earlier
    · cases same
    · exact closable.opened earlier
  · show Function.update (Function.update world.pending timer none) timer none = _
    rw [Function.update_idem, closable.only]

end Transitions

section Steps

variable {world next : World} {stage : Stage}

theorem represents_autoConnect {timeout : Nat} {refused : Bool}
    (represents : Represents world stage)
    (taken : step world (.autoConnect timeout refused) = some next) :
    ∃ stage, Represents next stage := by
  simp only [step] at taken
  split at taken
  · cases taken
  · rename_i allowed
    simp only [represents.context, represents.destroyed, not_or] at allowed
    cases stage with
    | idle =>
        have resting : Resting ({ world with
            redis := { world.redis with timeout := timeout } } : World) :=
          ⟨represents.orderly, represents.pending, represents.freeing, represents.destroyed⟩
        exact represents_connectNow resting represents.contexts (fun _ => represents.timer) taken
    | destroyed context timer => exact absurd rfl allowed.1
    | refused context | connecting context timer | waiting context timer opened
    | connected context timer | freeing context timer => exact absurd rfl allowed.2.1

theorem represents_freed {refused : Bool} (represents : Represents world stage)
    (taken : step world (.freed refused) = some next) : ∃ stage, Represents next stage := by
  simp only [step] at taken
  split at taken
  · rename_i inside
    rw [represents.freeing, represents.destroyed] at inside
    cases stage with
    | freeing context timer =>
        have resting : Resting ({ world with freeing := false } : World) :=
          ⟨represents.orderly, represents.pending, rfl, represents.destroyed⟩
        exact represents_connectNow resting represents.contexts Bool.noConfusion taken
    | idle | refused context | connecting context timer | waiting context timer opened
    | connected context timer | destroyed context timer => cases inside.1
  · cases taken

theorem connecting_awaits {context : Nat} {found : Context} (represents : Represents world stage)
    (present : world.contexts context = some found) (attached : found.attached = true)
    (connected : found.connected = false) :
    (∃ timer callback, stage.Awaits timer callback) ∧
      world.contexts = Function.update (fun _ => none) context (some ⟨true, true, false⟩) ∧
      found = ⟨true, true, false⟩ ∧ world.redis.context = some context := by
  have contexts := represents.contexts
  have own := represents.context
  rw [contexts] at present ⊢
  cases stage with
  | idle | freeing place timer | destroyed place timer => cases present
  | refused place =>
      obtain ⟨-, rfl⟩ := update_single present
      cases attached
  | connected place timer =>
      obtain ⟨-, rfl⟩ := update_single present
      cases connected
  | connecting place timer =>
      obtain ⟨rfl, rfl⟩ := update_single present
      exact ⟨⟨timer, .connectTimeout, rfl, rfl⟩, rfl, rfl, own⟩
  | waiting place timer opened =>
      cases opened with
      | false => cases present
      | true =>
          obtain ⟨rfl, rfl⟩ := update_single present
          exact ⟨⟨timer, .reconnectNext, rfl, rfl⟩, rfl, rfl, own⟩

theorem freeContext_spec {context : Nat} {found : Option Context}
    (own : world.redis.context = some context)
    (contexts : world.contexts = Function.update (fun _ => none) context found) :
    world.freeContext = if found.isSome then some { world with contexts := fun _ => none }
      else none := by
  unfold World.freeContext
  rw [own]
  simp only [contexts, Function.update_self]
  cases found with
  | none => rfl
  | some found =>
      simp only [Function.update_idem, update_none_none]
      cases found.connected <;> rfl

theorem waiting_contexts (context timer : Nat) (opened : Bool) :
    (Stage.waiting context timer opened).contexts = Function.update (fun _ => none) context
      (if opened then some ⟨true, true, false⟩ else none) := by
  cases opened with
  | true => rfl
  | false => exact (update_none_none context).symm

theorem represents_gone {context timer : Nat}
    (represents : Represents world (.waiting context timer true)) :
    Represents ({ world with
      contexts := Function.update world.contexts context none } : World)
        (.waiting context timer false) := by
  refine { represents with contexts := ?_, old := ?_ }
  · show Function.update world.contexts context none = _
    rw [represents.contexts]
    simp [Stage.contexts]
  · intro false_
    cases false_

theorem connected_stage {place : Nat} {found : Context}
    (present : stage.contexts place = some found) (connected : found.connected = true) :
    (∃ timer, stage = .connected place timer) ∧ found = ⟨true, true, true⟩ := by
  cases stage with
  | idle | freeing context timer | destroyed context timer => cases present
  | refused context | connecting context timer =>
      obtain ⟨-, rfl⟩ := update_single present
      cases connected
  | waiting context timer opened =>
      cases opened with
      | false => cases present
      | true =>
          obtain ⟨-, rfl⟩ := update_single present
          cases connected
  | connected context timer =>
      obtain ⟨rfl, rfl⟩ := update_single present
      exact ⟨⟨timer, rfl⟩, rfl⟩

theorem represents_connectResult {context : Nat} {succeeded : Bool}
    (represents : Represents world stage)
    (taken : step world (.connectResult context succeeded) = some next) :
    ∃ stage, Represents next stage := by
  simp only [step] at taken
  split at taken
  · cases taken
  · unfold World.connectResult at taken
    split at taken
    · cases taken
    · rename_i found present
      split at taken
      · rename_i ready
        obtain ⟨⟨timer, callback, awaits⟩, contexts, rfl, own⟩ :=
          connecting_awaits represents present ready.1 ready.2.1
        have closable := closable_of_awaits represents awaits
        obtain ⟨closed, closing, resting, redis, same, stale⟩ := closeTimer_spec closable
        simp only [World.autoConnectCb, closing, Option.map_some, Option.some.injEq] at taken
        rw [contexts] at same
        rw [← redis] at own
        cases succeeded with
        | true =>
            -- also where the timer was the one of the back-off
            subst taken
            exists .connected context timer
            constructor
            case orderly => exact resting.orderly
            case context => exact own
            case timer => exact (congrArg Redis.timer redis).trans closable.field
            case pending => exact resting.pending
            case contexts => simp [same, Stage.contexts]
            case freeing => exact resting.freeing
            case destroyed => exact resting.destroyed
            case stale =>
                rintro place rfl
                exact stale
            case old =>
                intro false_
                cases false_
        | false =>
            subst taken
            exact ⟨_, represents_gone (represents_connectComing true resting own same fun _ => rfl)⟩
      · cases taken

theorem represents_disconnect {context : Nat} (represents : Represents world stage)
    (taken : step world (.disconnect context) = some next) : ∃ stage, Represents next stage := by
  simp only [step] at taken
  split at taken
  · cases taken
  · unfold World.disconnect at taken
    split at taken
    · cases taken
    · rename_i found present
      split at taken
      · rename_i connected
        have contexts := represents.contexts
        rw [contexts] at present
        obtain ⟨⟨timer, rfl⟩, rfl⟩ := connected_stage present connected
        cases taken
        refine ⟨_, represents_connectComing false ?_ represents.context ?_ id⟩
        · exact ⟨represents.orderly, represents.pending, represents.freeing,
            represents.destroyed⟩
        · show Function.update world.contexts context none = _
          rw [contexts]
          simp [Stage.contexts]
      · cases taken

theorem represents_expire {timer : Nat} {refused : Bool} (represents : Represents world stage)
    (taken : step world (.expire timer refused) = some next) :
    ∃ stage, Represents next stage := by
  simp only [step] at taken
  split at taken
  · cases taken
  · unfold World.expire at taken
    split at taken
    · cases taken
    · rename_i callback present
      have awaits := (pending_awaits represents).mp present
      have closable := closable_of_awaits represents awaits
      obtain ⟨closed, closing, resting, redis, same, gone⟩ :=
        closeTimer_spec (closable_called closable)
      have contexts := same.trans represents.contexts
      have known := (congrArg Redis.context redis).trans represents.context
      cases stage with
      | idle | refused context | connected context own | freeing context own
      | destroyed context own => cases awaits
      | connecting context place =>
          obtain ⟨rfl, rfl⟩ := awaits
          simp only [World.autoConnectTimeoutCb, closing, Option.map_some,
            Option.some.injEq] at taken
          subst taken
          exact ⟨_, represents_connectComing true resting known contexts fun _ => rfl⟩
      | waiting context place opened =>
          obtain ⟨rfl, rfl⟩ := awaits
          simp only [World.autoReconnectNextCb, closing, Option.bind_some] at taken
          split at taken
          · -- the handle is closed, and the tasks of the old context run on
            rw [freeContext_spec known (contexts.trans (waiting_contexts ..))] at taken
            cases opened with
            | false => cases taken
            | true =>
                cases taken
                exists .freeing context place
                constructor
                case orderly => exact resting.orderly
                case context => exact known
                case timer => exact (congrArg Redis.timer redis).trans closable.field
                case pending => exact resting.pending
                case contexts => rfl
                case freeing => rfl
                case destroyed => exact resting.destroyed
                case stale =>
                    rintro stale rfl
                    exact gone
                case old =>
                    intro false_
                    cases false_
          · -- hiredis has freed the old context itself
            rename_i fresh
            rw [redis] at fresh
            cases opened with
            | true => exact absurd (represents.old trivial) fresh
            | false => exact represents_connectNow resting contexts Bool.noConfusion taken

theorem destroy_closes {context timer : Nat} {found : Option Context}
    (own : world.redis.context = some context)
    (contexts : world.contexts = Function.update (fun _ => none) context found)
    (held : world.freeing = true → found = none) (field : world.redis.timer = some timer)
    (taken : world.destroy = some next) :
    next = ({ world with contexts := fun _ => none, destroyed := true } : World).uvClose timer := by
  simp only [World.destroy, own, freeContext_spec own contexts] at taken
  obtain ⟨freed, released, rfl⟩ := Option.map_eq_some_iff.mp taken
  have same : freed = { world with contexts := fun _ => none } := by
    split at released
    · rename_i inside
      rw [held inside, update_none_none] at contexts
      rw [← contexts]
      exact (Option.some.inj released).symm
    · split at released
      · exact (Option.some.inj released).symm
      · cases released
  subst same
  simp only [field]

theorem represents_closing {context timer : Nat} {found : Option Context}
    (closable : Closable world timer) (own : world.redis.context = some context)
    (contexts : world.contexts = Function.update (fun _ => none) context found)
    (taken : world.destroy = some next) :
    Represents next (.destroyed (some context) (some timer)) := by
  have held : world.freeing = true → found = none := by
    rw [closable.freeing]
    exact Bool.noConfusion
  rw [destroy_closes own contexts held closable.field taken]
  constructor
  case orderly =>
      exact orderly_stopped (.closed timer) closable.orderly closable.below closable.opened
  case context => exact own
  case timer => exact closable.field
  case pending => exact closable.only
  case contexts => rfl
  case freeing => exact closable.freeing
  case destroyed => rfl
  case stale =>
      intro stale false_
      cases false_
  case old =>
      intro false_
      cases false_

-- The timer field is stale where the object must not be destroyed.
theorem stale_of_connected (represents : Represents world stage)
    (wrong : ¬Unconnected world .destroy) : ∃ timer, stage.Stale timer := by
  by_contra never
  apply wrong
  constructor
  · cases present : world.redis.context.bind world.contexts with
    | none => simp [connected, present]
    | some found =>
        obtain ⟨place, -, here⟩ := Option.bind_eq_some_iff.mp present
        rw [represents.contexts] at here
        cases state : found.connected with
        | true =>
            obtain ⟨⟨timer, rfl⟩, -⟩ := connected_stage here state
            exact absurd ⟨timer, rfl⟩ never
        | false => simpa [connected, present] using state
  · rw [represents.freeing]
    cases stage with
    | freeing context timer => exact absurd ⟨timer, rfl⟩ never
    | idle | refused context | connecting context timer | waiting context timer opened
    | connected context timer | destroyed context timer => rfl

theorem stale_fields {timer : Nat} (represents : Represents world stage)
    (stale : stage.Stale timer) : ∃ context found, world.redis.context = some context ∧
      world.contexts = Function.update (fun _ => none) context found ∧
      (world.freeing = true → found = none) ∧ world.redis.timer = some timer := by
  have contexts := represents.contexts
  have own := represents.context
  have field := represents.timer
  have freeing := represents.freeing
  cases stage with
  | connected context place =>
      cases stale
      refine ⟨context, _, own, contexts, ?_, field⟩
      rw [freeing]
      exact Bool.noConfusion
  | freeing context place =>
      cases stale
      exact ⟨context, none, own, contexts.trans (update_none_none context).symm, fun _ => rfl,
        field⟩
  | idle | refused context | connecting context place | waiting context place opened
  | destroyed context place => cases stale

theorem represents_destroy (represents : Represents world stage)
    (admitted : Unconnected world .destroy) (taken : step world .destroy = some next) :
    ∃ stage, Represents next stage := by
  simp only [step] at taken
  split at taken
  · cases taken
  · rename_i alive
    have own := represents.context
    have contexts := represents.contexts
    rw [represents.destroyed] at alive
    cases stage with
    | destroyed context timer => exact absurd rfl alive
    | idle =>
        exists .destroyed none none
        simp only [World.destroy, own, Stage.context] at taken
        cases taken
        exact { represents with destroyed := rfl, stale := fun _ => False.elim, old := False.elim }
    | refused context =>
        exists .destroyed (some context) none
        have field : world.redis.timer = none := represents.timer
        have known : world.redis.context = some context := own
        have outside : world.freeing = false := represents.freeing
        simp only [World.destroy, known, freeContext_spec known contexts, outside] at taken
        cases taken
        simp only [field]
        exact { represents with
          contexts := rfl
          freeing := rfl
          destroyed := rfl
          stale := fun _ => False.elim
          old := False.elim }
    | connecting context timer =>
        exact ⟨_, represents_closing (closable_of_awaits represents ⟨rfl, rfl⟩) own contexts taken⟩
    | waiting context timer opened =>
        rw [waiting_contexts] at contexts
        exact ⟨_, represents_closing (closable_of_awaits represents ⟨rfl, rfl⟩) own contexts taken⟩
    | connected context timer =>
        have state : connected world = true := by
          simp [connected, own, contexts, Stage.context, Stage.contexts]
        cases state.symm.trans admitted.1
    | freeing context timer => cases represents.freeing.symm.trans admitted.2

theorem represents_step (world : World) (label : Label) (next : World)
    (represents : ∃ stage, Represents world stage) (admitted : Unconnected world label)
    (taken : step world label = some next) : ∃ stage, Represents next stage := by
  obtain ⟨stage, represents⟩ := represents
  cases label with
  | autoConnect timeout refused => exact represents_autoConnect represents taken
  | connectResult context succeeded => exact represents_connectResult represents taken
  | disconnect context => exact represents_disconnect represents taken
  | expire timer refused => exact represents_expire represents taken
  | freed refused => exact represents_freed represents taken
  | destroy => exact represents_destroy represents admitted taken

theorem improper_destroy (represents : Represents world stage)
    (wrong : ¬Unconnected world .destroy) (taken : step world .destroy = some next) :
    ¬ProperTimers next := by
  simp only [step] at taken
  split at taken
  · cases taken
  · obtain ⟨timer, stale⟩ := stale_of_connected represents wrong
    obtain ⟨context, found, own, contexts, held, field⟩ := stale_fields represents stale
    rw [destroy_closes own contexts held field taken]
    intro proper
    exact proper.1 (represents.stale timer stale)

theorem proper_iff (world : World) (label : Label) (next : World)
    (represents : ∃ stage, Represents world stage) (taken : step world label = some next) :
    ProperTimers next ↔ Unconnected world label := by
  constructor
  · intro proper
    cases label with
    | destroy =>
        obtain ⟨stage, represents⟩ := represents
        by_contra wrong
        exact improper_destroy represents wrong taken proper
    | autoConnect timeout refused | connectResult context succeeded | disconnect context
    | expire timer refused | freed refused => exact trivial
  · intro admitted
    obtain ⟨stage, later⟩ := represents_step world label next represents admitted taken
    exact later.orderly.proper

/-- The object is gone, and nobody calls back. -/
structure Ended (world : World) : Prop where
  destroyed : world.destroyed = true
  contexts : world.contexts = fun _ => none
  pending : world.pending = fun _ => none

end Steps

theorem represents_new : Represents {} .idle := by
  constructor <;> try rfl
  · constructor
    · trivial
    · intro event member
      cases member
    · intro timer callback present
      cases present
  · exact fun _ => False.elim
  · exact False.elim

/-- In a run every timer is closed at most once, and not touched behind that, exactly when the
object is not destroyed while it is connected, nor by a task that runs on inside
`auto_reconnect_next_cb`. -/
theorem timers_proper_iff (labels : List Label) (last : World)
    (run : replay step {} labels = some last) :
    Throughout step ProperTimers {} labels ↔ Along step Unconnected {} labels := by
  apply throughout_iff_along (fun world => ∃ stage, Represents world stage) ProperTimers _ _
    ⟨.idle, represents_new⟩ trivial run
  · intro world label next represents _ taken proper
    exact represents_step world label next represents
      ((proper_iff world label next represents taken).mp proper) taken
  · intro world label next represents _ taken
    exact proper_iff world label next represents taken

/-- The first attempt times out, its connection is made all the same, and lost again; the object
is destroyed during the next attempt. -/
def lateConnection : List Label :=
  [.autoConnect 2000 false, .expire 0 false, .connectResult 0 true, .disconnect 0,
    .expire 2 false, .destroy]

theorem timers_proper_late :
    (replay step {} lateConnection).isSome ∧ Throughout step ProperTimers {} lateConnection := by
  have running : (replay step {} lateConnection).isSome := by decide
  refine ⟨running, ?_⟩
  exact (timers_proper_iff lateConnection _ (Option.some_get running).symm).mpr (by decide)

/-- The timer of a successful attempt is closed again by `~redis`. -/
theorem connected_destroyed : ¬∀ (labels : List Label) (last : World),
    replay step {} labels = some last → Throughout step ProperTimers {} labels := by
  intro claimed
  have running : (replay step {}
      [.autoConnect 2000 false, .connectResult 0 true, .destroy]).isSome := by decide
  have proper := claimed _ _ (Option.some_get running).symm
  exact absurd proper (by decide)

end Cocoflow.RedisTimers
