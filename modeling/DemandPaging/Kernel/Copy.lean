import DemandPaging.Kernel.Fault

/-!
# Copies between buffers and the memory of a process

A copy walks over a range of addresses page by page. It ends early, without an error, at the first
page outside the address space and at the end of the 32-bit addresses. While the bytes of a page are
copied, its frame is pinned.
-/

namespace DemandPaging

/-- A copy under way. A read collects the bytes that it finds, and a write hands out the bytes that it
was given. -/
structure Copy where
  kind : AccessKind
  start : VirtualAddress
  /-- Bytes wanted in all. -/
  length : Nat
  /-- Bytes copied so far. -/
  done : Nat
  /-- Of a read, the bytes found on each page so far, the last page first. -/
  pieces : List Bytes
  /-- Of a write, the bytes that are not yet written. -/
  pending : Bytes
  deriving DecidableEq

/-- The bytes of one page that a copy takes up next. -/
structure CopyPiece where
  page : PageNumber
  offset : PageOffset
  amount : Nat
  deriving DecidableEq

/-- What a copy does next. -/
inductive CopyTurn where
  | piece (p : CopyPiece)
  /-- All bytes are copied, or there is no address left. -/
  | complete
  /-- The next byte lies outside the address space. -/
  | outside (address : VirtualAddress)

namespace Copy

/-- Read `length` bytes from `start` on. -/
def ofRead (start : VirtualAddress) (length : Nat) : Copy := ⟨.read, start, length, 0, [], []⟩

/-- Write `data` from `start` on. -/
def ofWrite (start : VirtualAddress) (data : Bytes) : Copy :=
  ⟨.write, start, data.length, 0, [], data⟩

/-- The bytes read so far. -/
def bytes (c : Copy) : Bytes := c.pieces.reverse.flatten

/-- The part of the copy on the page that holds address `a`. -/
def pieceAt (c : Copy) (a : VirtualAddress) : CopyPiece :=
  ⟨a.page, a.offset, min (c.length - c.done) a.offset.remaining⟩

/-- What the copy does next in the address space `l`. -/
def turn (c : Copy) (l : Layout) : CopyTurn :=
  if c.length ≤ c.done then .complete
  else
    match c.start.add? c.done with
    | none => .complete
    | some a => if l.contains a.page then .piece (c.pieceAt a) else .outside a

/-- The copy after `found` was read in `piece`. -/
def afterRead (c : Copy) (piece : CopyPiece) (found : Bytes) : Copy :=
  { c with done := c.done + piece.amount, pieces := found :: c.pieces }

@[simp] theorem bytes_afterRead (c : Copy) (piece : CopyPiece) (found : Bytes) :
    (c.afterRead piece found).bytes = c.bytes ++ found := by
  simp [bytes, afterRead]

/-- The bytes that a write puts into `piece`. -/
def outgoing (c : Copy) (piece : CopyPiece) : Bytes := c.pending.take piece.amount

/-- The copy after its next bytes were written into `piece`. -/
def afterWrite (c : Copy) (piece : CopyPiece) : Copy :=
  { c with done := c.done + piece.amount, pending := c.pending.drop piece.amount }

/-- A buffer after the copy: what was read is in place from `position` on. -/
def fill (c : Copy) (buffer : Bytes) (position : Nat) : Bytes :=
  match c.kind with
  | .read => buffer.overwrite position c.bytes
  | .write => buffer

end Copy

namespace Action

/-- Copy the bytes of one piece from or to the pinned frame `f`, and note the access in the page
table. -/
def transfer (p : UserProcess) (c : Copy) (piece : CopyPiece) (f : FrameNumber) : Action Copy := do
  let c' ← match c.kind with
    | .read => do
      let memory := (← get).kernel.memory
      let bytes ← ofExcept (memory.read f piece.offset.toNat piece.amount)
      pure (c.afterRead piece bytes)
    | .write => do
      onMemory (·.write f piece.offset.toNat (c.outgoing piece))
      pure (c.afterWrite piece)
  onTable p (·.markAccess piece.page c.kind.isWrite)
  return c'

end Action

end DemandPaging
