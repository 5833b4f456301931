import Mathlib.Data.List.Basic
import Cocoflow.LabelledRuns
import Cocoflow.LengthFraming
import Cocoflow.TcpConnection
import Cocoflow.PacketFraming

/-!
`connected::bind` over the life of an object (src/tcp.cc, include/cocoflow.h). The receiving
mode that `bind_inner` looks at is left by the requests and the callbacks before; `bind` may be
called at any time, from a resumed task too.
-/

namespace Cocoflow.TcpBinding

open LabelledRuns LengthFraming TcpConnection PacketFraming

/-- What the life of an object does to the fields that `bind` reads and writes. -/
inductive Call where
  | bind (getter : Bool) (minLen maxLen : UInt64) (lener : Option LenGetter)
  | recv
  | recvTill
  | readStop
  | broken
  | read (read : Read)

/-- `recv::run` and `recv_till::run` up to the queue. -/
def receive (connection : Connected) (mode : Receiving) : Option Connected :=
  if connection.broken then none
  else if connection.receiving = .ready then some { connection with receiving := mode }
  else if connection.receiving = mode then some connection
  else none

def step (connection : Connected) : Call → Option Connected
  | .bind getter minLen maxLen lener => some (connection.bind getter minLen maxLen lener).2
  | .recv =>
      -- on a bound object the request waits beside the sequencer
      if connection.receiving = .recvBySeq then
        if connection.broken then none else some connection
      else receive connection .recv
  | .recvTill => receive connection .recvTill
  | .readStop =>
      -- behind the last request, in one of the two plain modes
      if connection.receiving = .recv ∨ connection.receiving = .recvTill then
        some { connection with receiving := .ready }
      else none
  | .broken => some { connection with broken := true }
  | .read read =>
      if connection.receiving = .recvBySeq then PacketFraming.step connection read else none

def Call.isBind : Call → Bool
  | .bind .. => true
  | _ => false

structure Arguments where
  minLen : UInt64
  maxLen : UInt64
  lener : LenGetter
  header : minLen ≠ 0
  buffer : maxLen ≠ 0

/-- A refused `bind` leaves the object as it was: if it had no sequencer, a `bind` with valid
arguments succeeds later, whenever the object is ready. -/
def LeftAsWas (connection : Connected) (getter : Bool) (minLen maxLen : UInt64)
    (lener : Option LenGetter) : Prop :=
  (connection.bind getter minLen maxLen lener).1 = -1 →
    (connection.bind getter minLen maxLen lener).2 = connection ∧
      (connection.seqer = false → ∀ (calls : List Call) (later : Connected),
        replay step (connection.bind getter minLen maxLen lener).2 calls = some later →
        (∀ call ∈ calls, call.isBind = false) → later.receiving = .ready →
        ∀ valid : Arguments,
          (later.bind true valid.minLen valid.maxLen (some valid.lener)).1 = 0)

def Accepts (connection : Connected) (minLen maxLen : UInt64) (lener : Option LenGetter) : Prop :=
  minLen ≠ 0 ∧ maxLen ≠ 0 ∧ lener.isSome = true ∧ connection.headerLen = 0 ∧
    connection.receiving = .ready

section Bind

variable {connection : Connected} {minLen maxLen : UInt64} {lener : Option LenGetter}

theorem bindInner_accepts :
    (connection.bindInner minLen maxLen lener).1 = 0 ↔ Accepts connection minLen maxLen lener := by
  unfold Connected.bindInner Accepts
  constructor
  · intro accepted
    split at accepted
    · cases accepted
    · rename_i valid
      simp only [not_or, ne_eq, not_not] at valid
      obtain ⟨header, buffer, length, fresh, ready⟩ := valid
      exact ⟨header, buffer, by simpa [Option.isSome_iff_ne_none] using length, fresh, ready⟩
  · rintro ⟨header, buffer, length, fresh, ready⟩
    have valid : ¬(minLen = 0 ∨ maxLen = 0 ∨ lener.isNone = true ∨ connection.headerLen ≠ 0 ∨
        connection.receiving ≠ .ready) := by
      simp only [not_or, ne_eq, not_not]
      exact ⟨header, buffer, by simpa [Option.isSome_iff_ne_none] using length, fresh, ready⟩
    rw [if_neg valid]

theorem bindInner_refused (refused : ¬Accepts connection minLen maxLen lener) :
    connection.bindInner minLen maxLen lener = (-1, connection) := by
  rw [← bindInner_accepts] at refused
  unfold Connected.bindInner at refused ⊢
  split
  · rfl
  · rename_i valid
    rw [if_neg valid] at refused
    exact absurd rfl refused

theorem bind_cases (connection : Connected) (getter : Bool) (minLen maxLen : UInt64)
    (lener : Option LenGetter) :
    ((getter = false ∨ connection.seqer = true) ∧
        connection.bind getter minLen maxLen lener = (-1, connection)) ∨
      (getter = true ∧ connection.seqer = false ∧ ¬Accepts connection minLen maxLen lener ∧
        connection.bind getter minLen maxLen lener = (-1, { connection with seqer := true })) ∨
      (getter = true ∧ connection.seqer = false ∧ Accepts connection minLen maxLen lener ∧
        (connection.bind getter minLen maxLen lener).1 = 0 ∧
        (connection.bind getter minLen maxLen lener).2.seqer = true) := by
  unfold Connected.bind
  split
  · rename_i refused
    exact Or.inl ⟨refused, rfl⟩
  · rename_i asked
    rw [not_or, Bool.not_eq_false, Bool.not_eq_true] at asked
    right
    by_cases accepted : Accepts connection minLen maxLen lener
    · right
      have installed : Accepts { connection with seqer := true } minLen maxLen lener := accepted
      have zero := bindInner_accepts.mpr installed
      refine ⟨asked.1, asked.2, accepted, zero, ?_⟩
      unfold Connected.bindInner
      split <;> rfl
    · exact Or.inl ⟨asked.1, asked.2, accepted, bindInner_refused accepted⟩

end Bind

section Life

theorem read_frame {connection next : Connected} {read : Read}
    (taken : PacketFraming.step connection read = some next) :
    next.seqer = connection.seqer ∧ next.headerLen = connection.headerLen := by
  cases read with
  | failed =>
      cases taken
      exact ⟨rfl, rfl⟩
  | chunk bytes =>
      simp only [PacketFraming.step] at taken
      split at taken
      · cases taken
      · split at taken
        · cases taken
          exact ⟨rfl, rfl⟩
        · cases taken
          simp only [Connected.tcpRecvData, Connected.tcpRecvPacket, Connected.breakAllRecv]
          split
          · split
            · exact ⟨rfl, rfl⟩
            · split
              · exact ⟨rfl, rfl⟩
              · split <;> exact ⟨rfl, rfl⟩
          · split <;> exact ⟨rfl, rfl⟩

theorem receive_frame {connection next : Connected} {mode : Receiving}
    (taken : receive connection mode = some next) :
    next.seqer = connection.seqer ∧ next.headerLen = connection.headerLen := by
  unfold receive at taken
  split at taken
  · cases taken
  · split at taken
    · cases taken
      exact ⟨rfl, rfl⟩
    · split at taken
      · cases taken
        exact ⟨rfl, rfl⟩
      · cases taken

theorem step_frame {connection next : Connected} {call : Call} (other : call.isBind = false)
    (taken : step connection call = some next) :
    next.seqer = connection.seqer ∧ next.headerLen = connection.headerLen := by
  cases call with
  | bind getter minLen maxLen lener => cases other
  | recv =>
      simp only [step] at taken
      split at taken
      · split at taken
        · cases taken
        · cases taken
          exact ⟨rfl, rfl⟩
      · exact receive_frame taken
  | recvTill => exact receive_frame taken
  | readStop =>
      simp only [step] at taken
      split at taken
      · cases taken
        exact ⟨rfl, rfl⟩
      · cases taken
  | broken =>
      cases taken
      exact ⟨rfl, rfl⟩
  | read read =>
      simp only [step] at taken
      split at taken
      · exact read_frame taken
      · cases taken

theorem life_frame {connection later : Connected} {calls : List Call}
    (others : ∀ call ∈ calls, call.isBind = false)
    (run : replay step connection calls = some later) :
    later.seqer = connection.seqer ∧ later.headerLen = connection.headerLen := by
  have along : Along step (fun _ call => call.isBind = false) connection calls :=
    along_of_forall calls connection fun call member _ => others call member
  refine replay_invariant
    (fun state => state.seqer = connection.seqer ∧ state.headerLen = connection.headerLen)
    ?_ ⟨rfl, rfl⟩ along run
  intro state call next kept other taken
  obtain ⟨seqer, header⟩ := step_frame other taken
  exact ⟨seqer.trans kept.1, header.trans kept.2⟩

theorem step_unbound {connection next : Connected} {call : Call}
    (before : connection.seqer = false → connection.headerLen = 0)
    (taken : step connection call = some next) : next.seqer = false → next.headerLen = 0 := by
  cases kind : call.isBind with
  | false =>
      obtain ⟨seqer, header⟩ := step_frame kind taken
      rw [seqer, header]
      exact before
  | true =>
      cases call with
      | bind getter minLen maxLen lener =>
          cases taken
          rcases bind_cases connection getter minLen maxLen lener with
            ⟨-, same⟩ | ⟨-, -, -, same⟩ | ⟨-, -, -, -, bound⟩
          · rw [same]
            exact before
          · rw [same]
            intro absent
            cases absent
          · intro absent
            rw [bound] at absent
            cases absent
      | _ => cases kind

/-- In every state of an object's life and for all arguments, a `bind` that is refused leaves
the object as it was, exactly if it is refused for its getter or for a sequencer that is there
already: `bind_inner` refuses too late. -/
theorem bind_left_as_was (calls : List Call) (connection : Connected)
    (reached : replay step {} calls = some connection) (getter : Bool) (minLen maxLen : UInt64)
    (lener : Option LenGetter) :
    LeftAsWas connection getter minLen maxLen lener ↔
      getter = false ∨ connection.seqer = true ∨ Accepts connection minLen maxLen lener := by
  have clean : connection.seqer = false → connection.headerLen = 0 :=
    replay_always (fun connection => connection.seqer = false → connection.headerLen = 0)
      (fun _ _ _ before taken => step_unbound before taken) (fun _ => rfl) reached
  unfold LeftAsWas
  rcases bind_cases connection getter minLen maxLen lener with
    ⟨early, same⟩ | ⟨asked, absent, refused, same⟩ | ⟨-, -, accepted, zero, -⟩
  · rw [same]
    constructor
    · intro _
      exact early.imp_right Or.inl
    · intro _ _
      refine ⟨rfl, ?_⟩
      intro absent calls later run others ready valid
      obtain ⟨seqer, header⟩ := life_frame others run
      have free : later.bind true valid.minLen valid.maxLen (some valid.lener) =
          { later with seqer := true }.bindInner valid.minLen valid.maxLen (some valid.lener) := by
        simp [Connected.bind, seqer, absent]
      rw [free, bindInner_accepts]
      exact ⟨valid.header, valid.buffer, rfl, header.trans (clean absent), ready⟩
  · rw [same]
    constructor
    · intro left
      have kept := congrArg Connected.seqer (left rfl).1
      rw [absent] at kept
      cases kept
    · rintro (none_ | bound | accepted)
      · rw [asked] at none_
        cases none_
      · rw [absent] at bound
        cases bound
      · exact absurd accepted refused
  · constructor
    · intro _
      exact Or.inr (Or.inr accepted)
    · intro _ failed
      rw [zero] at failed
      cases failed

/-- A request that is under way, and a `bind` meanwhile. -/
theorem bind_left_during_recv : ∃ connection,
    replay step {} [.recv] = some connection ∧
      (LeftAsWas connection false 4 16 none ↔
        false = false ∨ connection.seqer = true ∨ Accepts connection 4 16 none) := by
  have reached : (replay step {} [.recv]).isSome := by decide
  exact ⟨_, (Option.some_get reached).symm,
    bind_left_as_was [.recv] _ (Option.some_get reached).symm false 4 16 none⟩

/-- With `min_len = 0` a new object keeps the sequencer and cannot be bound any more. -/
theorem bind_not_left : ¬LeftAsWas {} true 0 16 none := by
  intro left
  have kept := congrArg Connected.seqer (left (by decide)).1
  exact absurd kept (by decide)

end Life

end Cocoflow.TcpBinding
