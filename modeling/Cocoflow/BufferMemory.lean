import Mathlib.Data.List.Basic
import Cocoflow.TcpConnection
import Cocoflow.BoundedMemory
import Cocoflow.RecvTill

/-!
`recv_till` in memory (src/tcp.cc): `buf1` is a block of `size1` bytes of which `len1` are in
use, and a request has a cursor into the caller's buffer. Every copy names its source, its target
and its length, and every difference of sizes is checked for a wrap. The events are those of
`RecvTill`, whose lists are the parts of the blocks that are in use.

No object is larger than the user half of the address space; a `malloc` beyond it returns NULL and
does not pass its `CHECK`. What `malloc` leaves in a block is not read and taken as zero.
-/

namespace Cocoflow.BufferMemory

open TcpConnection BoundedMemory

def addressSpace : Nat := 2 ^ 56

def malloc (size : Nat) : Checked (List Byte) :=
  if size ≤ addressSpace then pure (List.replicate size 0) else throw .check

/-- `buf` is the caller's buffer, `cur` is an offset into it, and `len` the caller's variable. -/
structure Request where
  id : Nat
  pattern : Option (List Byte)
  buf : List Byte
  cur : Nat
  left : Nat
  len : Nat
  deriving DecidableEq

def Request.new (id : Nat) (buf : List Byte) (pattern : Option (List Byte)) : Checked Request := do
  if addressSpace < buf.length then throw .disabled
  else
    require (buf ≠ [] ∧ pattern ≠ some [])
    pure { id := id, pattern := pattern, buf := buf, cur := 0, left := buf.length, len := buf.length }

structure Connected where
  receiving : Receiving := .ready
  buf1 : Option (List Byte) := none
  size1 : Nat := 0
  len1 : Nat := 0
  queue : List Request := []
  curAlloc : Option Request := none
  asyncCancel : Bool := false
  asyncPending : Bool := false
  standing : Bool := false
  received : List Byte := []
  completed : List Request := []
  issued : List Request := []
  deriving DecidableEq

structure Remaining where
  finished : Bool
  block : List Byte
  len1 : Nat
  request : Request

/-- `if (len1) memmove(buf1, buf1 + copy, len1)`. -/
def memmove (block : List Byte) (copy len1 : Nat) : Checked (List Byte) :=
  if len1 = 0 then pure block else memcpy block 0 block copy len1

def bufbuf (block : List Byte) (len1 : Nat) (pattern : List Byte) : Checked (Option Nat) :=
  if len1 ≤ block.length then pure (RecvTill.bufbuf (block.take len1) pattern) else throw .fault

/-- The label `____remaining_fill`. -/
def remainingFill (block : List Byte) (len1 : Nat) (request : Request) : Checked Remaining := do
  let buf ← memcpy request.buf request.cur block 0 request.left
  let rest ← subtract len1 request.left
  let block ← memmove block request.left rest
  pure ⟨true, block, rest, { request with buf := buf }⟩

def remaining (block : List Byte) (len1 : Nat) (request : Request) : Checked Remaining := do
  require (len1 ≠ 0)
  match request.pattern with
  | none =>
      if request.left ≤ len1 then remainingFill block len1 request
      else
        let buf ← memcpy request.buf request.cur block 0 len1
        let left ← subtract request.left len1
        pure ⟨false, block, 0,
          { request with buf := buf, left := left, cur := request.cur + len1 }⟩
  | some pattern =>
      if len1 < pattern.length then pure ⟨false, block, len1, request⟩
      else
        let ret ← bufbuf block len1 pattern
        match ret with
        | some copy =>
            if request.left ≤ copy then remainingFill block len1 request
            else
              let buf ← memcpy request.buf request.cur block 0 copy
              let rest ← subtract len1 copy
              let block ← memmove block copy rest
              pure ⟨true, block, rest, { request with buf := buf, len := request.cur + copy }⟩
        | none =>
            let behind ← subtract len1 pattern.length
            let copy := behind + 1
            if request.left ≤ copy then remainingFill block len1 request
            else
              let buf ← memcpy request.buf request.cur block 0 copy
              let left ← subtract request.left copy
              let rest ← subtract len1 copy
              let block ← memmove block copy rest
              pure ⟨false, block, rest,
                { request with buf := buf, left := left, cur := request.cur + copy }⟩

namespace Connected

/-- The block at `buf1`; a null pointer has no bytes. -/
def block (connection : Connected) : List Byte := connection.buf1.getD []

def setBlock (connection : Connected) (block : List Byte) : Connected :=
  { connection with buf1 := connection.buf1.map fun _ => block }

def leave (connection : Connected) (outcome : Remaining) : Connected :=
  { connection.setBlock outcome.block with len1 := outcome.len1 }

def complete (connection : Connected) (request : Request) : Connected :=
  { connection with completed := connection.completed ++ [request] }

/-- The end of `recv_till::run`. -/
def enqueue (connection : Connected) (request : Request) : Checked Connected :=
  match connection.receiving with
  | .ready => pure { connection with
      receiving := .recvTill
      asyncCancel := true
      asyncPending := false
      queue := connection.queue ++ [request] }
  | .recvTill => pure { connection with queue := connection.queue ++ [request] }
  | _ => throw .check

def run (connection : Connected) (request : Request) : Checked Connected := do
  if connection.len1 ≠ 0 ∧ connection.queue = [] then
    let outcome ← remaining connection.block connection.len1 request
    if outcome.finished then pure ((connection.leave outcome).complete outcome.request)
    else (connection.leave outcome).enqueue outcome.request
  else connection.enqueue request

/-- The growth of `buf1` in `recv_till::cancel`. -/
def grow (connection : Connected) (fallback : Nat) : Checked Connected := do
  let more ← add (2 ^ 64) connection.len1 fallback
  let size1 ← add (2 ^ 64) connection.size1 more
  let fresh ← malloc size1
  let fresh ← memcpy fresh 0 connection.block 0 connection.len1
  pure { connection with buf1 := some fresh, size1 := size1 }

def makeRoom (connection : Connected) (fallback : Nat) : Checked Connected := do
  let free ← subtract connection.size1 connection.len1
  if free < fallback then connection.grow fallback else pure connection

def giveBack (connection : Connected) (request : Request) : Checked Connected :=
  if request.cur = 0 then pure connection
  else do
    let fallback := request.cur
    let connection ← connection.makeRoom fallback
    let block ← memcpy connection.block connection.len1 request.buf 0 fallback
    pure { connection.setBlock block with len1 := connection.len1 + fallback }

def cancel (connection : Connected) (request : Request) : Checked Connected := do
  let connection ← ({ connection with queue := connection.queue.erase request }).giveBack request
  require (connection.asyncCancel = true)
  pure { connection with asyncPending := true }

def stopReading (connection : Connected) : Checked Connected :=
  if connection.queue = [] then do
    require (connection.asyncCancel = true)
    pure { connection with
      receiving := .ready, asyncCancel := false, asyncPending := false, standing := false }
  else pure { connection with standing := false }

/-- `check_remaining` up to its next `__task_stand`, or to its end. -/
def checkRemaining (connection : Connected) : Checked Connected :=
  match connection.queue with
  | [] => connection.stopReading
  | request :: others =>
      if connection.len1 = 0 then connection.stopReading
      else do
        let outcome ← remaining connection.block connection.len1 request
        if outcome.finished then
          let connection := connection.leave outcome
          pure ({ connection with queue := others, standing := true }.complete outcome.request)
        else
          let connection := connection.leave outcome
          ({ connection with queue := outcome.request :: others }).stopReading

def allocate (connection : Connected) : Checked Connected :=
  match connection.buf1 with
  | some _ => pure connection
  | none => do
      let fresh ← malloc 1024
      pure { connection with buf1 := some fresh, size1 := 1024 }

/-- `tcp_alloc_cb1`: the connection and the length of the window, which is at `cur` in the
buffer of a fill request and at `len1` in `buf1` for a pattern request. -/
def tcpAllocCb1 (connection : Connected) : Checked (Connected × Nat) := do
  require (connection.curAlloc = none)
  match connection.queue with
  | [] => throw .check
  | request :: others =>
      let connection := { connection with curAlloc := some request, queue := others }
      match request.pattern with
      | none =>
          require (connection.len1 = 0)
          pure (connection, uvBufLen request.left)
      | some _ =>
          let connection ← connection.allocate
          let free ← subtract connection.size1 connection.len1
          pure (connection, uvBufLen free)

def arrive (connection : Connected) (chunk : List Byte) : Checked Connected :=
  match connection.curAlloc with
  | none => throw .disabled
  | some request =>
      match request.pattern with
      | none => do
          let buf ← memcpy request.buf request.cur chunk 0 chunk.length
          pure { connection with
            curAlloc := some { request with buf := buf }
            received := connection.received ++ chunk }
      | some _ => do
          let block ← memcpy connection.block connection.len1 chunk 0 chunk.length
          pure { connection.setBlock block with received := connection.received ++ chunk }

def tcpRecvCb1 (connection : Connected) (nread : Nat) : Checked Connected :=
  match connection.curAlloc with
  | none => throw .check
  | some request => do
      let connection := { connection with curAlloc := none }
      if nread = 0 then pure { connection with queue := request :: connection.queue }
      else match request.pattern with
      | none =>
          require (nread ≤ request.left)
          if nread = request.left then
            pure ({ connection with standing := true }.complete request)
          else
            let left ← subtract request.left nread
            ({ connection with
              queue := { request with cur := request.cur + nread, left := left } ::
                connection.queue }).checkRemaining
      | some _ =>
          let free ← subtract connection.size1 connection.len1
          require (nread ≤ free)
          let outcome ← remaining connection.block (connection.len1 + nread) request
          let connection := connection.leave outcome
          if outcome.finished then
            pure ({ connection with standing := true }.complete outcome.request)
          else ({ connection with queue := outcome.request :: connection.queue }).checkRemaining

end Connected

inductive Label where
  | issue (buf : List Byte) (pattern : Option (List Byte))
  | cancel (id : Nat)
  | read (chunk : List Byte)
  | fallback
  | back
  deriving DecidableEq

def perform (connection : Connected) : Label → Checked Connected
  | .issue buf pattern => do
      let request ← Request.new connection.issued.length buf pattern
      { connection with issued := connection.issued ++ [request] }.run request
  | .cancel id =>
      match connection.queue.find? (·.id = id) with
      | some request => connection.cancel request
      | none => throw .disabled
  | .read chunk =>
      if connection.standing ∨ connection.receiving ≠ .recvTill then throw .disabled
      else do
        let (connection, window) ← connection.tcpAllocCb1
        if window = 0 ∨ window < chunk.length then throw .disabled
        else
          let connection ← connection.arrive chunk
          connection.tcpRecvCb1 chunk.length
  | .fallback =>
      if connection.standing ∨ connection.asyncPending = false then throw .disabled
      else { connection with asyncPending := false }.checkRemaining
  | .back => if connection.standing then connection.checkRemaining else throw .disabled

def step (connection : Connected) (label : Label) : Option Connected :=
  (perform connection label).toOption

end Cocoflow.BufferMemory
