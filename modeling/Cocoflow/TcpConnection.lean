import Mathlib.Algebra.Group.Nat.Defs
import Mathlib.Data.List.Basic

/-!
What the receiving modes of `tcp::connected` share (src/tcp.cc): the mode itself, and the
arithmetic of the windows that the `tcp_alloc_cb*` callbacks hand to libuv.
-/

namespace Cocoflow.TcpConnection

abbrev Byte := UInt8

inductive Receiving where
  | ready | recv | recvTill | recvBySeq
  deriving DecidableEq

def sizeSub (left right : Nat) : Nat := (left + 2 ^ 64 - right) % 2 ^ 64

/-- The length that `uv_buf_init` keeps of a `size_t`: its parameter is `unsigned int`. -/
def uvBufLen (length : Nat) : Nat := length % 2 ^ 32

theorem uvBufLen_sizeSub (left right : Nat) (ordered : right ≤ left) :
    uvBufLen (sizeSub left right) = (left - right) % 2 ^ 32 := by
  unfold uvBufLen sizeSub
  omega

end Cocoflow.TcpConnection
