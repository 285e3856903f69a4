import DemandPaging.Text.Inspect

/-!
# Parameters of the memory manager
-/

namespace DemandPaging

/-- Frames of a pool whose size nobody chose. -/
def defaultFrameCount : Nat := 32

/-- Stack pages of a process when nobody chose their number. -/
def defaultStackPages : Nat := 8

/-- What can be chosen when the memory manager starts. -/
structure Config where
  /-- Frames in the pool that all processes share. -/
  frameCount : Nat
  /-- Zero-filled pages after the sections of every executable. -/
  stackPages : Nat
  /-- Whether a page that was just brought in counts as referenced, and so survives one turn of the
  clock. -/
  referenceOnInstall : Bool
  deriving DecidableEq

namespace Config

def default : Config := ⟨defaultFrameCount, defaultStackPages, true⟩

def withFrameCount (c : Config) (n : Nat) : Config := { c with frameCount := n }

def withStackPages (c : Config) (n : Nat) : Config := { c with stackPages := n }

def withReferenceOnInstall (c : Config) (b : Bool) : Config := { c with referenceOnInstall := b }

instance : Inspect Config where
  inspect c := Inspect.record "VmConfig"
    [("frame_count", inspect c.frameCount), ("stack_pages", inspect c.stackPages),
      ("reference_on_install", inspect c.referenceOnInstall)]

end Config

end DemandPaging
