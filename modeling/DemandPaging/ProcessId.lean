import DemandPaging.Text.Inspect

/-!
# Process identities

A process is named by a 32-bit number; the first process of a kernel has number 1.
-/

namespace DemandPaging

/-- Identity of a process, as recorded in the frame directory and in swap. -/
structure ProcessId where
  val : UInt32
  deriving DecidableEq, Inhabited

namespace ProcessId

def toNat (p : ProcessId) : Nat := p.val.toNat

def ofNat (n : Nat) : ProcessId := ⟨UInt32.ofNat n⟩

/-- The identity given out after `p`; the numbers start again at 0 after the last one. -/
def next (p : ProcessId) : ProcessId := ⟨p.val + 1⟩

instance : ToString ProcessId := ⟨fun p => "pid " ++ toString p.toNat⟩
instance : Inspect ProcessId := ⟨fun p => Inspect.applied "PID" [toString p.toNat]⟩

end ProcessId

end DemandPaging
