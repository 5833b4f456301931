import Mathlib.Algebra.Group.Nat.Defs
import Mathlib.Logic.Function.Basic
import Mathlib.Data.List.Basic
import Cocoflow.LabelledRuns
import Cocoflow.RedisConnection
import Cocoflow.RedisTimers

/-!
The back-off of an auto-connecting `redis` object. Whatever the peer does, what the monitoring
callbacks are told decides how long the object waits before it connects again: the wait is
doubled with every failure in a row and cut off, and a success starts it over. The wait behind a
connect that failed is set like the others, but the object does not survive it.
-/

namespace Cocoflow.RedisBackoff

open LabelledRuns RedisConnection RedisTimers

/-- The calls of `succeed` and of `failed` with its `failed_type`. -/
inductive Notice where
  | succeeded | exception | disconnected | timeout
  deriving DecidableEq

def delay (failures : Nat) : Nat :=
  min (reconnectIntervalMin * 2 ^ (failures - 1)) reconnectIntervalMax

/-- The failures since the last success, and the waits so far, the last one first. -/
structure Backoff where
  failures : Nat := 0
  waits : List Nat := []

def Backoff.step (backoff : Backoff) : Notice → Option Backoff
  | .succeeded => some { backoff with failures := 0 }
  | .exception | .disconnected | .timeout => some {
      failures := backoff.failures + 1
      waits := delay (backoff.failures + 1) :: backoff.waits }

section Steps

variable {world next : World} {backoff : Backoff}

end Steps

end Cocoflow.RedisBackoff
