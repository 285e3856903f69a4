import DemandPaging.Frames.Clock
import DemandPaging.Frames.FreeList
import DemandPaging.Frames.WaitQueue

/-!
# The frame table

The pool of frames: free list, directory, clock and the queue of calls that wait for a frame. Every
frame is either free and on the list once, or owned. A call on a frame in the wrong state is
refused with a violation and changes nothing.
-/

namespace DemandPaging

/-- A disagreement between free list and directory. -/
inductive FrameTableError where
  | ownedFrameOnFreeList (frame : FrameNumber)
  | leakedFrame (frame : FrameNumber)
  | pinnedFreeFrame (frame : FrameNumber)
  | freeCountMismatch (listed free : Nat)
  deriving DecidableEq

namespace FrameTableError

def message : FrameTableError → String
  | ownedFrameOnFreeList f => s!"{f} is owned and on the free list"
  | leakedFrame f => s!"{f} has no owner and is not on the free list"
  | pinnedFreeFrame f => s!"{f} is pinned without an owner"
  | freeCountMismatch listed free =>
    s!"free list holds {listed} frames, directory has {free} owner-less entries"

instance : ToString FrameTableError := ⟨message⟩

instance : Inspect FrameTableError where
  inspect
    | ownedFrameOnFreeList f => Inspect.applied "OwnedFrameOnFreeList" [inspect f]
    | leakedFrame f => Inspect.applied "LeakedFrame" [inspect f]
    | pinnedFreeFrame f => Inspect.applied "PinnedFreeFrame" [inspect f]
    | freeCountMismatch listed free => Inspect.record "FreeCountMismatch"
        [("listed", inspect listed), ("free", inspect free)]

end FrameTableError

/-- The pool of frames and everything that decides who gets one. -/
structure FrameTable (O : Type) where
  free : FreeList
  directory : Directory O
  clock : Clock
  waiters : WaitRoom

namespace FrameTable

variable {O : Type}

/-- A pool of `n` free frames. -/
def ofSize (n : Nat) : FrameTable O := ⟨.full n, .ofSize n, .zero, .empty⟩

/-- A pool of `n` free frames, if that many frames can be numbered. -/
def ofSize? (n : Nat) : Option (FrameTable O) := if n ≤ wordBound then some (ofSize n) else none

def frameCount (t : FrameTable O) : Nat := t.directory.size

def freeCount (t : FrameTable O) : Nat := t.free.size

def info? (t : FrameTable O) (f : FrameNumber) : Option (FrameInfo O) := t.directory.get? f

/-- Calls in the queue. -/
def waiting (t : FrameTable O) : Nat := t.waiters.queue.size

/-! ## Frames -/

/-- Hand out the top frame of the free list, owned and pinned once. -/
def allocate (t : FrameTable O) (owner : O) (page : PageNumber) :
    Except Violation (Option FrameNumber × FrameTable O) :=
  match t.free.pop? with
  | none => .ok (none, t)
  | some (f, free) => do
    let directory ← t.directory.assign f owner page
    return (some f, { t with free, directory })

/-- Take a frame from its owner and put it on top of the free list. -/
def release (t : FrameTable O) (f : FrameNumber) : Except Violation (FrameTable O) :=
  match t.directory.get? f with
  | none => .error .outOfBounds
  | some i =>
    if i.isFree then .error (.releasedWhileFree f)
    else if i.isPinned then .error (.releasedWhilePinned f)
    else do
      let directory ← t.directory.clear f
      let free ← t.free.push f
      return { t with free, directory }

/-- Add a pin to an owned frame. -/
def pin (t : FrameTable O) (f : FrameNumber) : Except Violation (FrameTable O) :=
  match t.directory.get? f with
  | none => .error .outOfBounds
  | some i =>
    if i.isFree then .error (.pinnedWhileFree f)
    else if FrameInfo.maxPins ≤ i.pins then .error .overflow
    else .ok { t with directory := t.directory.set f { i with pins := i.pins + 1 } }

/-- Wake the oldest waiter; tells whether there was one. -/
def wakeOne (t : FrameTable O) : Bool × FrameTable O :=
  let (woke, waiters) := t.waiters.wakeOne
  (woke, { t with waiters })

/-- Take a pin away. The last pin of a frame wakes the oldest waiter; tells whether it did. -/
def unpin (t : FrameTable O) (f : FrameNumber) : Except Violation (Bool × FrameTable O) :=
  match t.directory.get? f with
  | none => .error .outOfBounds
  | some i =>
    if i.isPinned then
      let t := { t with directory := t.directory.set f { i with pins := i.pins - 1 } }
      if 1 < i.pins then .ok (false, t) else .ok t.wakeOne
    else .error (.unpinnedWhileNotPinned f)

/-- Set or clear the referenced mark of a frame. -/
def setReferenced (t : FrameTable O) (f : FrameNumber) (b : Bool) :
    Except Violation (FrameTable O) := do
  let directory ← t.directory.update f fun i => { i with referenced := b }
  return { t with directory }

/-- Let the clock choose a victim. -/
def selectVictim (t : FrameTable O) : Option FrameNumber × FrameTable O :=
  let (victim, clock, directory) := t.clock.selectVictim t.directory
  (victim, { t with clock, directory })

/-- Join the queue with a new parker; its ticket comes back. -/
def wait (t : FrameTable O) : Ticket × FrameTable O :=
  let ticket := t.waiters.parkers.size
  (ticket, { t with waiters := t.waiters.addParker.enqueue ticket })

/-- The frames of one owner and the pages they hold, in ascending order of frames. -/
def ownedBy [DecidableEq O] (t : FrameTable O) (owner : O) : List (FrameNumber × PageNumber) :=
  t.directory.ownedBy owner

/-! ## Consistency -/

/-- The first disagreement on a single frame of `fs`. -/
def firstDisagreement (free : FreeList) :
    List (FrameNumber × FrameInfo O) → Option FrameTableError
  | [] => none
  | (f, i) :: fs =>
    if !i.isFree && free.contains f then some (.ownedFrameOnFreeList f)
    else if i.isFree && !free.contains f then some (.leakedFrame f)
    else if i.isFree && i.isPinned then some (.pinnedFreeFrame f)
    else firstDisagreement free fs

/-- The first disagreement between free list and directory, if there is one. -/
def check (t : FrameTable O) : Except FrameTableError Unit :=
  let records := t.directory.toList
  match firstDisagreement t.free records with
  | some e => .error e
  | none =>
    let ownerless := records.countP fun (_, i) => i.isFree
    if ownerless = t.free.size then .ok () else .error (.freeCountMismatch t.free.size ownerless)

instance : Inspect (FrameTable O) where
  inspect t := Inspect.record "FrameTable"
    [("frames", inspect t.frameCount), ("free", inspect t.freeCount),
      ("hand", inspect t.clock.hand), ("waiting", inspect t.waiting)]

end FrameTable

end DemandPaging
