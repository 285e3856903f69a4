import DemandPaging.Image.Layout

/-!
# Processes

A process is what its creator holds: identity, executable, layout, and where its arguments are. Its
page table changes with every fault and eviction, so it is kept by the machine, and the process
names it.
-/

namespace DemandPaging

/-- How the pages of a process are brought in: all of them at the start, or each on first touch. -/
inductive PagingMode where
  | eager
  | demand
  deriving DecidableEq

namespace PagingMode

/-- Pages are loaded on demand unless asked otherwise. -/
def default : PagingMode := demand

instance : Inspect PagingMode where
  inspect
    | eager => "Eager"
    | demand => "Demand"

end PagingMode

/-- Direction of an access to memory. -/
inductive AccessKind where
  | read
  | write
  deriving DecidableEq

namespace AccessKind

def isWrite : AccessKind → Bool
  | read => false
  | write => true

instance : Inspect AccessKind where
  inspect
    | read => "Read"
    | write => "Write"

end AccessKind

/-- The name of a page table in the machine. -/
structure TableId where
  index : Nat
  deriving DecidableEq

/-- A process as the memory manager knows it. -/
structure UserProcess where
  pid : ProcessId
  image : Executable
  layout : Layout
  mode : PagingMode
  argc : Nat
  /-- Address of the table of argument pointers. -/
  argv : VirtualAddress
  table : TableId

namespace UserProcess

def numPages (p : UserProcess) : Nat := p.layout.numPages

def contains (p : UserProcess) (page : PageNumber) : Bool := p.layout.contains page

def entryPoint (p : UserProcess) : VirtualAddress := p.image.entry

/-- The stack starts where the arguments do. -/
def stackPointer? (p : UserProcess) : Option VirtualAddress := p.layout.stackTop?

instance : Inspect UserProcess where
  inspect p := Inspect.openRecord "Process"
    [("id", inspect p.pid), ("pages", inspect p.numPages), ("mode", inspect p.mode)]

/-- The content of a page that was never saved: a page of the executable, or zeroes. -/
def initialContent (p : UserProcess) (page : PageNumber) : Except (Stop VmError) Page :=
  match p.layout.source? page with
  | none => .error (.error (.segmentationFault p.pid page))
  | some .zeroFill => .ok Page.zero
  | some (.fromSection index k) => (p.image.page index k).mapError (Stop.mapError .load)

/-- Mark the given pages read-only. -/
def markReadOnly : List PageNumber → PageTable → Except PageTableError PageTable
  | [], t => .ok t
  | p :: ps, t => do markReadOnly ps (← t.setReadOnly p true)

/-- The sections that the executable maps read-only. -/
def readOnlySections (image : Executable) : List Nat :=
  (List.range image.sections.length).filter image.readOnly

/-- The page table of a new process: nothing is resident, and the pages of read-only sections are
marked. -/
def initialTable (image : Executable) (layout : Layout) : Except PageTableError PageTable :=
  markReadOnly ((readOnlySections image).flatMap layout.sectionPages) (.ofPages layout.numPages)

end UserProcess

end DemandPaging
