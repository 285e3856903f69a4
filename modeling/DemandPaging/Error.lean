import DemandPaging.PageTable
import DemandPaging.Swap
import DemandPaging.Image.Executable
import DemandPaging.Frames.FrameTable

/-!
# Errors of the memory manager

The causes for which an operation on behalf of a process fails, and the disagreements that the
consistency check reports. Each cause has one text.
-/

namespace DemandPaging

/-- Why an operation on behalf of a process failed. -/
inductive VmError where
  | segmentationFault (pid : ProcessId) (page : PageNumber)
  | processExited (pid : ProcessId)
  | readOnlyViolation (pid : ProcessId) (page : PageNumber)
  | insufficientMemory (needed available : Nat)
  | load (e : LoadError)
  | swap (e : SwapError)
  | argumentsTooLong (size : Nat)
  | fragmentedExecutable (index : Nat) (expected found : PageNumber)
  | pageTable (e : PageTableError)
  deriving DecidableEq

namespace VmError

def message : VmError → String
  | segmentationFault pid p => s!"segmentation fault: {p} is outside the address space of {pid}"
  | processExited pid => s!"{pid} has released its memory"
  | readOnlyViolation pid p => s!"{pid} wrote to read-only {p}"
  | insufficientMemory needed available =>
    s!"insufficient physical memory: {needed} pages requested, {available} available"
  | load e => s!"failed to load page content: {e}"
  | swap e => s!"swap store failure: {e}"
  | argumentsTooLong size => s!"argument block of {size} bytes does not fit the argument page"
  | fragmentedExecutable index expected found =>
    s!"section {index} starts at {found}, expected {expected}"
  | pageTable e => e.message

instance : ToString VmError := ⟨message⟩

instance : Inspect VmError where
  inspect
    | segmentationFault pid p =>
      Inspect.record "SegmentationFault" [("pid", inspect pid), ("vpn", inspect p)]
    | processExited pid => Inspect.applied "ProcessExited" [inspect pid]
    | readOnlyViolation pid p =>
      Inspect.record "ReadOnlyViolation" [("pid", inspect pid), ("vpn", inspect p)]
    | insufficientMemory needed available => Inspect.record "InsufficientMemory"
        [("needed", inspect needed), ("available", inspect available)]
    | load e => Inspect.applied "Load" [inspect e]
    | swap e => Inspect.applied "Swap" [inspect e]
    | argumentsTooLong size => Inspect.applied "ArgumentsTooLong" [inspect size]
    | fragmentedExecutable index expected found => Inspect.record "FragmentedExecutable"
        [("section", inspect index), ("expected", inspect expected), ("found", inspect found)]
    | pageTable e => Inspect.applied "PageTable" [inspect e]

end VmError

/-- A disagreement between the frame directory and the page tables. -/
inductive InvariantError where
  | frameTable (e : FrameTableError)
  | unknownOwner (frame : FrameNumber) (owner : ProcessId)
  | staleDirectoryEntry (frame : FrameNumber) (owner : ProcessId) (page : PageNumber)
  | staleMapping (frame : FrameNumber) (owner : ProcessId) (page : PageNumber)
  deriving DecidableEq

namespace InvariantError

def message : InvariantError → String
  | frameTable e => e.message
  | unknownOwner f owner => s!"{f} is owned by {owner}, which is not registered"
  | staleDirectoryEntry f owner p =>
    s!"{f} records {owner} {p}, but that page does not map it"
  | staleMapping f owner p =>
    s!"{owner} {p} maps {f}, which the directory gives to someone else"

instance : ToString InvariantError := ⟨message⟩

/-- The fields that the disagreements on one frame share. -/
def inspectFields (f : FrameNumber) (owner : ProcessId) (p : PageNumber) : List (String × String) :=
  [("pfn", inspect f), ("owner", inspect owner), ("vpn", inspect p)]

instance : Inspect InvariantError where
  inspect
    | frameTable e => Inspect.applied "FrameTable" [inspect e]
    | unknownOwner f owner =>
      Inspect.record "UnknownOwner" [("pfn", inspect f), ("owner", inspect owner)]
    | staleDirectoryEntry f owner p =>
      Inspect.record "StaleDirectoryEntry" (inspectFields f owner p)
    | staleMapping f owner p => Inspect.record "StaleMapping" (inspectFields f owner p)

end InvariantError

end DemandPaging
