import DemandPaging.Address
import DemandPaging.ProcessId

/-!
# Violated assertions

A call can end in three ways: with a value, with an error of its domain, or because an assertion
about the state or the arguments does not hold. The last kind is kept apart from errors: it stops
the call where it stands, and what the call had changed by then stays changed.
-/

namespace DemandPaging

/-- An assertion that did not hold. -/
inductive Violation where
  | needsFrame
  | releasedTwice (frame : FrameNumber)
  | assignedWhileOwned (frame : FrameNumber)
  | releasedWhileFree (frame : FrameNumber)
  | releasedWhilePinned (frame : FrameNumber)
  | pinnedWhileFree (frame : FrameNumber)
  | unpinnedWhileNotPinned (frame : FrameNumber)
  | installedTwice (page : PageNumber)
  | choseFree (frame : FrameNumber)
  | chosePinned (frame : FrameNumber)
  | ownerUnregistered (frame : FrameNumber) (owner : ProcessId)
  | notMapped (owner : ProcessId) (page : PageNumber) (frame : FrameNumber)
  | bufferRange (offset length size : Nat)
  /-- An index or a slice is outside its array, or two copied ranges differ in length. -/
  | outOfBounds
  /-- A number does not fit its machine word. -/
  | overflow
  deriving DecidableEq

namespace Violation

/-- The text of the assertion; the bounds and word-size checks have none. -/
def message? : Violation → Option String
  | needsFrame => some "memory manager needs at least one frame"
  | releasedTwice f => some (toString f ++ " released twice")
  | assignedWhileOwned f => some (toString f ++ " assigned while owned")
  | releasedWhileFree f => some (toString f ++ " released while free")
  | releasedWhilePinned f => some (toString f ++ " released while pinned")
  | pinnedWhileFree f => some (toString f ++ " pinned while free")
  | unpinnedWhileNotPinned f => some (toString f ++ " unpinned while not pinned")
  | installedTwice p => some (toString p ++ " installed twice")
  | choseFree f => some ("clock chose free " ++ toString f)
  | chosePinned f => some ("clock chose pinned " ++ toString f)
  | ownerUnregistered f o => some (toString f ++ " owned by unregistered " ++ toString o)
  | notMapped o p f => some (toString o ++ " " ++ toString p ++ " does not map " ++ toString f)
  | bufferRange offset length size =>
    some (s!"buffer range {offset}+{length} exceeds {size} bytes")
  | outOfBounds => none
  | overflow => none

end Violation

/-- Why a call ended without a value. -/
inductive Stop (ε : Type) where
  | error (e : ε)
  | violation (v : Violation)

namespace Stop

/-- The same end, with the error seen as an error of a wider kind. -/
def mapError {ε δ : Type} (f : ε → δ) : Stop ε → Stop δ
  | error e => .error (f e)
  | violation v => .violation v

end Stop

end DemandPaging
