import Mathlib.Data.List.Basic

/-!
Blocks of memory and unsigned sizes for code that must stay inside them. A computation may stop
because an event is not possible or an assertion fails; it faults when it copies out of a block
or lets a size wrap. `Safe` is the triple that excludes the fault.
-/

namespace Cocoflow.BoundedMemory

universe u
variable {α β cell : Type u}

inductive Stop where
  | disabled
  | check
  | fault
  deriving DecidableEq

abbrev Checked (α : Type u) := Except Stop α

/-- The result, if there is one, satisfies the postcondition, and there is no fault. -/
def Safe (outcome : Checked α) (post : α → Prop) : Prop :=
  match outcome with
  | .ok value => post value
  | .error stop => stop ≠ .fault

theorem safe_pure {value : α} {post : α → Prop} (holds : post value) :
    Safe (pure value : Checked α) post := holds

theorem safe_throw {stop : Stop} {post : α → Prop} (kind : stop ≠ .fault) :
    Safe (throw stop : Checked α) post := kind

theorem safe_bind {first : Checked α} {next : α → Checked β} {middle : α → Prop}
    {post : β → Prop} (before : Safe first middle)
    (after : ∀ value, middle value → Safe (next value) post) : Safe (first >>= next) post := by
  cases first with
  | ok value => exact after value before
  | error stop => exact before

theorem safe_mono {outcome : Checked α} {weak strong : α → Prop} (safe : Safe outcome strong)
    (implies : ∀ value, strong value → weak value) : Safe outcome weak := by
  cases outcome with
  | ok value => exact implies value safe
  | error stop => exact safe

theorem safe_ok {outcome : Checked α} {post : α → Prop} {value : α} (safe : Safe outcome post)
    (returns : outcome = .ok value) : post value := by
  rw [returns] at safe
  exact safe

theorem safe_not_fault {outcome : Checked α} {post : α → Prop} (safe : Safe outcome post) :
    outcome ≠ .error .fault := by
  rintro rfl
  exact safe rfl

section Operations

def require (condition : Prop) [Decidable condition] : Checked Unit :=
  if condition then pure () else throw .check

def subtract (left right : Nat) : Checked Nat :=
  if right ≤ left then pure (left - right) else throw .fault

def add (bound left right : Nat) : Checked Nat :=
  if left + right < bound then pure (left + right) else throw .fault

/-- `count` cells of the source from `start` on go to `position`; source and target may be one
block. -/
def memcpy (target : List cell) (position : Nat) (source : List cell) (start count : Nat) :
    Checked (List cell) :=
  if start + count ≤ source.length ∧ position + count ≤ target.length then
    pure (target.take position ++ ((source.drop start).take count ++
      target.drop (position + count)))
  else throw .fault

theorem safe_require {condition : Prop} [Decidable condition] :
    Safe (require condition) fun _ => condition := by
  unfold require
  split
  · assumption
  · exact safe_throw (by decide)

theorem safe_subtract {left right : Nat} (ordered : right ≤ left) :
    Safe (subtract left right) (· = left - right) := by
  rw [subtract, if_pos ordered]
  exact safe_pure rfl

theorem safe_add {bound left right : Nat} (small : left + right < bound) :
    Safe (add bound left right) (· = left + right) := by
  rw [add, if_pos small]
  exact safe_pure rfl

theorem safe_memcpy {target source : List cell} {position start count : Nat}
    (room : position + count ≤ target.length) (filled : start + count ≤ source.length) :
    Safe (memcpy target position source start count) fun after =>
      after.length = target.length ∧
        after.take (position + count) = target.take position ++ (source.drop start).take count := by
  rw [memcpy, if_pos ⟨filled, room⟩]
  have front : (target.take position).length = position := List.length_take_of_le (by omega)
  have copied : ((source.drop start).take count).length = count := by
    rw [List.length_take_of_le]
    rw [List.length_drop]
    omega
  refine safe_pure ⟨?_, ?_⟩
  · simp only [List.length_append, front, copied, List.length_drop]
    omega
  · rw [← List.append_assoc]
    exact List.take_left' (by rw [List.length_append, front, copied])

end Operations

end Cocoflow.BoundedMemory
