import DemandPaging.Kernel.Copy
import DemandPaging.Kernel.Teardown
import DemandPaging.Text.Utf8

/-!
# Calls that may have to wait

A call works for one process through a list of tasks. It goes forward in steps, each of which is one
critical section, and between two steps any other call may run. A call that found every frame pinned
sleeps until it is woken, and then tries again for the same page. All that a call needs in order to
go on is in the `Call`, so calls can be interleaved, and woken, in any order.
-/

namespace DemandPaging

/-- Something that a call has to do. -/
inductive Task where
  /-- Prepare all pages in the given way. -/
  | load (mode : PagingMode)
  /-- Make the pages `next`, …, `stop - 1` resident, one after the other. -/
  | touch (next stop : Nat)
  /-- Make a page resident and keep its frame pinned. -/
  | hold (page : PageNumber) (kind : AccessKind)
  | copy (c : Copy)
  /-- Fail. -/
  | refuse (e : VmError)

/-- How far a call is with the page it needs. -/
inductive Stage where
  /-- It is about to ask for the page. -/
  | seeking
  /-- It queued up for a frame and keeps this ticket. -/
  | waiting (ticket : Ticket)
  /-- The page is resident, and its frame is pinned for the call. -/
  | holding (frame : FrameNumber)
  /-- The bytes of the page are copied, and the frame is still pinned. -/
  | leaving (frame : FrameNumber)
  /-- It failed with this error, and the process that it was to create is still there. -/
  | undoing (e : VmError)
  deriving DecidableEq

/-- What a call is for. -/
inductive Purpose where
  | plain
  /-- Read a text that ends with a zero byte. -/
  | text
  /-- Create a process: if a task fails, the process is torn down. -/
  | spawn
  deriving DecidableEq

/-- A resident page whose frame is pinned until someone drops the pin. -/
structure PinnedFrame where
  frame : FrameNumber
  page : PageNumber
  deriving DecidableEq

instance : Inspect PinnedFrame where
  inspect g := Inspect.record "PinnedFrame" [("pfn", inspect g.frame), ("vpn", inspect g.page)]

/-- The value of a call. -/
inductive Answer where
  | done
  | pinned (g : PinnedFrame)
  | copied (c : Copy)
  | text (s : Option String)
  | spawned (p : UserProcess)

/-- How a call ended. -/
inductive Outcome where
  | returned (a : Answer)
  /-- An error; a copy that was under way comes with it. -/
  | failed (e : VmError) (copied : Option Copy)
  | violated (v : Violation)

/-- The outcome of a call that ended without a value, and not while it copied. -/
def Outcome.ofStop : Stop VmError → Outcome
  | .error e => .failed e none
  | .violation v => .violated v

/-- A call in flight. -/
structure Call where
  process : UserProcess
  purpose : Purpose
  /-- What is left to do; the first task is under way. -/
  tasks : List Task
  stage : Stage

/-- Where a call is after a step. -/
inductive Progress where
  | ongoing (c : Call)
  | finished (o : Outcome)

/-- The text in front of the first zero byte; `none` if there is no zero byte. -/
def terminatedText? (bs : Bytes) : Option String :=
  if bs.contains 0 then some (Utf8.decodeLossy (bs.takeWhile (· ≠ 0))) else none

namespace Call

/-! ## Making calls -/

/-- A call with one task. -/
def ofTask (p : UserProcess) (t : Task) : Call := ⟨p, .plain, [t], .seeking⟩

/-- Make a page resident. -/
def fault (p : UserProcess) (page : PageNumber) : Call :=
  ofTask p (.touch page.toNat (page.toNat + 1))

/-- Prepare all pages of a process. -/
def loadSections (p : UserProcess) (mode : PagingMode) : Call := ofTask p (.load mode)

/-- Make a page resident and keep its frame pinned. -/
def pin (p : UserProcess) (page : PageNumber) (kind : AccessKind) : Call := ofTask p (.hold page kind)

/-- Read `n` bytes. -/
def read (p : UserProcess) (start : VirtualAddress) (n : Nat) : Call :=
  ofTask p (.copy (.ofRead start n))

/-- Write bytes. -/
def write (p : UserProcess) (start : VirtualAddress) (bytes : Bytes) : Call :=
  ofTask p (.copy (.ofWrite start bytes))

/-- Copy `length` bytes between a buffer, from position `offset` on, and memory. The range must lie
inside the buffer. -/
def access (p : UserProcess) (start : VirtualAddress) (buffer : Bytes) (offset length : Nat)
    (kind : AccessKind) : Except Violation Call :=
  if buffer.length < offset + length then
    .error (.bufferRange offset length buffer.length)
  else .ok <| match kind with
    | .read => read p start length
    | .write => write p start (buffer.slice offset length)

/-- Bytes to look at for a text of at most `max` bytes: one more for the zero byte, but none past the
end of the address space. -/
def textLength (p : UserProcess) (start : VirtualAddress) (max : Nat) : Nat :=
  min (max + 1) (p.numPages * pageSize - start.toNat)

/-- Read a text of at most `max` bytes that ends with a zero byte. -/
def readText (p : UserProcess) (start : VirtualAddress) (max : Nat) : Call :=
  ⟨p, .text, [.copy (.ofRead start (textLength p start max))], .seeking⟩

/-! ## Steps -/

/-- The page that the task under way needs next, and how it is accessed. -/
def wanted? (c : Call) : Option (PageNumber × AccessKind) :=
  match c.tasks with
  | .touch next stop :: _ => if next < stop then some (.ofNat next, .read) else none
  | .hold page kind :: _ => some (page, kind)
  | .copy copy :: _ =>
    match copy.turn c.process.layout with
    | .piece piece => some (piece.page, copy.kind)
    | _ => none
  | _ => none

/-- The copy under way. -/
def copy? (c : Call) : Option Copy :=
  match c.tasks with
  | .copy copy :: _ => some copy
  | _ => none

/-- The call with other tasks left, about to ask for a page. -/
def withTasks (c : Call) (ts : List Task) : Call := { c with tasks := ts, stage := .seeking }

/-- Ask for a page. -/
def seek (c : Call) (page : PageNumber) (kind : AccessKind) : Action Progress := do
  match ← Action.resolve c.process page kind with
  | .pinned f => return .ongoing { c with stage := .holding f }
  | .queued t => return .ongoing { c with stage := .waiting t }

/-- The call is done; its last task ended with `a`. -/
def conclude (c : Call) (a : Answer) : Action Progress :=
  match c.purpose, a with
  | .spawn, _ => do
    let p := c.process
    match p.stackPointer? with
    | none => Action.violate .overflow
    | some sp =>
      Action.note (.spawned p.pid p.numPages p.mode p.entryPoint sp)
      return .finished (.returned (.spawned p))
  | .text, .copied copy => return .finished (.returned (.text (terminatedText? copy.bytes)))
  | _, a => return .finished (.returned a)

/-- The task under way ended with `a`; go on with the other tasks. -/
def endTask (c : Call) (a : Answer) (rest : List Task) : Action Progress :=
  match rest with
  | [] => c.conclude a
  | ts => return .ongoing (c.withTasks ts)

/-- A copy ended. The arguments of a new process must be copied to the last byte. -/
def endCopy (c : Call) (copy : Copy) (rest : List Task) : Action Progress :=
  if c.purpose = .spawn ∧ copy.done < copy.length then
    Action.fail (.segmentationFault c.process.pid copy.start.page)
  else c.endTask (.copied copy) rest

/-- Prepare the pages: all of them, if they fit the pool, or none. -/
def beginLoad (c : Call) (mode : PagingMode) (rest : List Task) : Action Progress := do
  let p := c.process
  match mode with
  | .demand =>
    Action.note (.leftToDemand p.pid p.numPages)
    c.endTask .done rest
  | .eager =>
    let available := (← get).kernel.config.frameCount
    if available < p.numPages then
      Action.note (.doesNotFit p.pid p.numPages available)
      Action.fail (.insufficientMemory p.numPages available)
    else return .ongoing (c.withTasks (.touch 0 p.numPages :: rest))

/-- Go on with the task under way, for which no page is held yet. -/
def begin (c : Call) : Action Progress :=
  match c.tasks with
  | [] => c.conclude .done
  | .load mode :: rest => c.beginLoad mode rest
  | .refuse e :: _ => Action.fail e
  | .touch next stop :: rest =>
    if next < stop then c.seek (.ofNat next) .read else c.endTask .done rest
  | .hold page kind :: _ => c.seek page kind
  | .copy copy :: rest =>
    match copy.turn c.process.layout with
    | .piece piece => c.seek piece.page copy.kind
    | .complete => c.endCopy copy rest
    | .outside a => do
      Action.note (.copyStopped c.process.pid copy.kind a copy.done)
      c.endCopy copy rest

/-- Use the page that lies in the pinned frame `f`. -/
def use (c : Call) (f : FrameNumber) : Action Progress :=
  match c.tasks with
  | .touch next stop :: rest => do
    Action.unpin f
    return .ongoing (c.withTasks (.touch (next + 1) stop :: rest))
  | .hold page _ :: rest => c.endTask (.pinned ⟨f, page⟩) rest
  | .copy copy :: rest =>
    match copy.turn c.process.layout with
    | .piece piece => do
      let copy' ← Action.transfer c.process copy piece f
      return .ongoing { c with tasks := .copy copy' :: rest, stage := .leaving f }
    | _ => return .ongoing { c with stage := .leaving f }
  | _ => return .ongoing { c with stage := .leaving f }

/-- Take the wake-up that is pending for a ticket; tells whether there was one. -/
def takeWakeUp (ticket : Ticket) : Action Bool :=
  Action.onFrames fun t =>
    match t.waiters.park? ticket with
    | none => .ok (false, t)
    | some waiters => .ok (true, { t with waiters })

/-- Wake up, if there is a wake-up, and try again. -/
def retry (c : Call) (ticket : Ticket) : Action Progress := do
  if ← takeWakeUp ticket then
    match c.wanted? with
    | none => return .ongoing { c with stage := .seeking }
    | some (page, kind) =>
      Action.note (.woken c.process.pid page)
      c.seek page kind
  else return .ongoing c

/-- Tear down the process that was to be created. -/
def undo (c : Call) (e : VmError) : Action Progress := do
  Action.note (.spawnFailed c.process.pid e)
  Action.tearDown c.process
  return .finished (.failed e none)

/-- One step of a call, as far as nothing fails. -/
def proceed (c : Call) : Action Progress :=
  match c.stage with
  | .seeking => c.begin
  | .waiting ticket => c.retry ticket
  | .holding f => c.use f
  | .leaving f => do
    Action.unpin f
    return .ongoing { c with stage := .seeking }
  | .undoing e => c.undo e

/-- Where the call is after a step that failed. A process that was to be created has yet to be torn
down. -/
def afterFailure (c : Call) : Stop VmError → Progress
  | .violation v => .finished (.violated v)
  | .error e =>
    if c.purpose = .spawn then .ongoing { c with stage := .undoing e }
    else .finished (.failed e c.copy?)

/-- One step of a call. A call that sleeps and was not woken stays as it is. -/
def step (c : Call) (m : Machine) : Progress × Machine :=
  match c.proceed.run m with
  | .ok p m' => (p, m')
  | .error stop m' => (c.afterFailure stop, m')

/-! ## Running a call -/

/-- The call waits for a frame and was not woken. -/
def isAsleep (c : Call) (m : Machine) : Bool :=
  match c.stage with
  | .waiting ticket => (m.kernel.frames.waiters.park? ticket).isNone
  | _ => false

/-- At least the number of steps that a task takes while the call is awake. -/
def taskSteps (p : UserProcess) : Task → Nat
  | .load _ => 3 * p.numPages + 6
  | .touch next stop => 3 * (stop - next) + 3
  | .hold .. => 4
  | .copy copy => 4 * (copy.length - copy.done) + 4
  | .refuse _ => 1

/-- At least the number of steps that are left, while the call is awake. -/
def stepsLeft (c : Call) : Nat := c.tasks.foldr (fun t n => taskSteps c.process t + n) 5

/-- Up to `n` steps, until the call ends or falls asleep. -/
def runFor : Nat → Call → Machine → Progress × Machine
  | 0, c, m => (.ongoing c, m)
  | n + 1, c, m =>
    match c.step m with
    | (.finished o, m') => (.finished o, m')
    | (.ongoing c', m') =>
      if c'.isAsleep m' then (.ongoing c', m') else runFor n c' m'

/-- Run a call until it ends or falls asleep. -/
def run (c : Call) (m : Machine) : Progress × Machine := runFor c.stepsLeft c m

end Call

end DemandPaging
