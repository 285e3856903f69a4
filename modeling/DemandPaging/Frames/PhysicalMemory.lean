import DemandPaging.Page
import DemandPaging.Violation

/-!
# Physical memory

The bytes of all frames. A range that leaves its frame is a violation and changes nothing.
-/

namespace DemandPaging

/-- The content of every frame, by frame number. -/
structure PhysicalMemory where
  frames : Array Page

namespace PhysicalMemory

/-- `n` frames of zeroes. -/
def ofSize (n : Nat) : PhysicalMemory := ⟨Array.replicate n Page.zero⟩

/-- `n` frames of zeroes, if that many frames can be numbered. -/
def ofSize? (n : Nat) : Option PhysicalMemory := if n ≤ wordBound then some (ofSize n) else none

def frameCount (m : PhysicalMemory) : Nat := m.frames.size

/-- The content of a frame. -/
def frame (m : PhysicalMemory) (f : FrameNumber) : Except Violation Page :=
  match m.frames[f.toNat]? with
  | none => .error .outOfBounds
  | some p => .ok p

/-- Give a frame that exists a new content. -/
def setFrame (m : PhysicalMemory) (f : FrameNumber) (p : Page) : Except Violation PhysicalMemory :=
  if f.toNat < m.frames.size then .ok ⟨m.frames.setIfInBounds f.toNat p⟩ else .error .outOfBounds

/-- The `n` bytes of a frame from offset `start` on. -/
def read (m : PhysicalMemory) (f : FrameNumber) (start n : Nat) : Except Violation Bytes := do
  let p ← m.frame f
  match p.read? start n with
  | none => .error .outOfBounds
  | some bs => .ok bs

/-- Write `src` into a frame from offset `start` on. -/
def write (m : PhysicalMemory) (f : FrameNumber) (start : Nat) (src : Bytes) :
    Except Violation PhysicalMemory := do
  let p ← m.frame f
  match p.write? start src with
  | none => .error .outOfBounds
  | some p' => m.setFrame f p'

/-- Fill a frame with zeroes. -/
def zero (m : PhysicalMemory) (f : FrameNumber) : Except Violation PhysicalMemory :=
  m.setFrame f Page.zero

end PhysicalMemory

end DemandPaging
