import DemandPaging.UserProcess

/-!
# The record of what happened

Operations note events. An event has a level, names the part of the memory manager it comes from,
and has one text.
-/

namespace DemandPaging

/-- Weight of an event, the gravest first. -/
inductive Level where
  | error
  | warn
  | info
  | debug
  | trace
  deriving DecidableEq

namespace Level

/-- Position among the levels; a filter at a level lets everything at or below its rank pass. -/
def rank : Level → Nat
  | error => 1
  | warn => 2
  | info => 3
  | debug => 4
  | trace => 5

instance : ToString Level where
  toString
    | error => "ERROR"
    | warn => "WARN"
    | info => "INFO"
    | debug => "DEBUG"
    | trace => "TRACE"

end Level

/-- The states that a page fault goes through. -/
inductive FaultState where
  | miss
  | acquireFrame
  | populate
  | install
  | ready
  deriving DecidableEq

namespace FaultState

instance : ToString FaultState where
  toString
    | miss => "miss"
    | acquireFrame => "acquire frame"
    | populate => "populate"
    | install => "install"
    | ready => "ready"

instance : Inspect FaultState where
  inspect
    | miss => "Miss"
    | acquireFrame => "AcquireFrame"
    | populate => "Populate"
    | install => "Install"
    | ready => "Ready"

end FaultState

/-- Something worth noting. -/
inductive Event where
  | booted (frames stackPages : Nat) (referenceOnInstall : Bool)
  | spawned (pid : ProcessId) (pages : Nat) (mode : PagingMode) (entry stack : VirtualAddress)
  | spawnFailed (pid : ProcessId) (e : VmError)
  | tornDown (pid : ProcessId) (frames : Nat)
  | doesNotFit (pid : ProcessId) (needed available : Nat)
  | leftToDemand (pid : ProcessId) (pages : Nat)
  | faultMiss (pid : ProcessId) (page : PageNumber)
  | faultAcquire (pid : ProcessId) (page : PageNumber)
  | faultPopulate (pid : ProcessId) (page : PageNumber) (frame : FrameNumber)
  | faultInstall (pid : ProcessId) (page : PageNumber)
  | faultReady (pid : ProcessId) (page : PageNumber) (frame : FrameNumber)
  | waiting (pid : ProcessId) (page : PageNumber)
  | woken (pid : ProcessId) (page : PageNumber)
  | loadedFromSwap (pid : ProcessId) (page : PageNumber)
  | allocated (frame : FrameNumber) (owner : ProcessId) (page : PageNumber)
  | released (frame : FrameNumber)
  | choseVictim (frame : FrameNumber) (info : FrameInfo ProcessId) (hand : Nat)
  | evicted (owner : ProcessId) (page : PageNumber) (frame : FrameNumber) (saved : Bool)
  | evictionFailed (frame : FrameNumber) (owner : ProcessId) (page : PageNumber) (e : SwapError)
  | copyStopped (pid : ProcessId) (kind : AccessKind) (address : VirtualAddress) (bytes : Nat)
  | wrongContent (pid : ProcessId) (page : PageNumber) (expected : UInt8) (round : Nat)
  | inconsistent (e : InvariantError)

namespace Event

def level : Event → Level
  | wrongContent .. | inconsistent .. => .error
  | booted .. | spawned .. | spawnFailed .. | tornDown .. | waiting .. => .info
  | doesNotFit .. | choseVictim .. | evicted .. | evictionFailed .. => .debug
  | leftToDemand .. | faultMiss .. | faultAcquire .. | faultPopulate .. | faultInstall ..
  | faultReady .. | woken .. | loadedFromSwap .. | allocated .. | released .. | copyStopped .. =>
    .trace

/-- The part of the memory manager that the event comes from. -/
def target : Event → String
  | booted .. | spawned .. | spawnFailed .. | tornDown .. | evicted .. | evictionFailed .. =>
    "kernel_vm::kernel"
  | doesNotFit .. | leftToDemand .. => "kernel_vm::process"
  | faultMiss .. | faultAcquire .. | faultPopulate .. | faultInstall .. | faultReady ..
  | waiting .. | woken .. | loadedFromSwap .. => "kernel_vm::page_fault"
  | allocated .. | released .. | choseVictim .. => "kernel_alloc::frame_table"
  | copyStopped .. => "kernel_vm::accessor"
  | wrongContent .. | inconsistent .. => "vmsim"

/-- A step of a page fault. -/
def faultText (pid : ProcessId) (page : PageNumber) (s : FaultState) : String :=
  s!"{pid} {page}: {s}"

def message : Event → String
  | booted frames stackPages referenced =>
    s!"vm: {frames} frames, {stackPages} stack pages, reference on install: {referenced}"
  | spawned pid pages mode entry stack =>
    s!"{pid}: spawned, {pages} pages, {inspect mode} paging, entry {entry}, sp {stack}"
  | spawnFailed pid e => s!"{pid}: spawn failed: {e}"
  | tornDown pid frames => s!"{pid}: released {frames} frames"
  | doesNotFit pid needed available => s!"{pid}: {needed} pages do not fit {available} frames"
  | leftToDemand pid pages => s!"{pid}: {pages} pages left to demand paging"
  | faultMiss pid page => faultText pid page .miss
  | faultAcquire pid page => faultText pid page .acquireFrame
  | faultPopulate pid page f => faultText pid page .populate ++ s!" {f}"
  | faultInstall pid page => faultText pid page .install
  | faultReady pid page f => faultText pid page .ready ++ s!" in {f}"
  | waiting pid page => s!"{pid} {page}: every frame is pinned, waiting"
  | woken pid page => s!"{pid} {page}: woken, retrying"
  | loadedFromSwap pid page => s!"{pid} {page}: loaded from swap"
  | allocated f owner page => s!"allocated {f} to {inspect owner} {page}"
  | released f => s!"released {f}"
  | choseVictim f info hand => s!"clock chose {f} ({inspect info}), hand at {hand}"
  | evicted owner page f saved =>
    s!"evicted {owner} {page} from {f}" ++ (if saved then " to swap" else "")
  | evictionFailed f owner page e => s!"evicting {f} ({owner} {page}) failed: {e}"
  | copyStopped pid kind address bytes =>
    s!"{pid} {inspect kind} stopped at {address} after {bytes} bytes"
  | wrongContent pid page expected round =>
    s!"{pid} {page}: expected 0x" ++ Hex.lower 2 expected.toNat ++ s!" in round {round}"
  | inconsistent e => e.message

/-- Does a filter at level `l` let the event pass? -/
def isVisible (l : Level) (e : Event) : Bool := e.level.rank ≤ l.rank

end Event

end DemandPaging
