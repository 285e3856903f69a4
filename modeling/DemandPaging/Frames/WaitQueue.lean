import DemandPaging.Text.Inspect

/-!
# Waiting for a frame

Calls that find every frame pinned queue up and are woken in the order in which they came, one for
each frame that becomes free of pins. A wake-up is handed over through a `Parker`: it stays pending
until the call that was woken takes it, and two of them that meet are one.
-/

namespace DemandPaging

/-- The place a call keeps in the queue. -/
abbrev Ticket := Nat

/-- Tickets of the waiting calls, the oldest first. -/
structure WaitQueue where
  waiting : List Ticket
  deriving DecidableEq

namespace WaitQueue

def empty : WaitQueue := ⟨[]⟩

def size (q : WaitQueue) : Nat := q.waiting.length

def isEmpty (q : WaitQueue) : Bool := q.waiting.isEmpty

def contains (q : WaitQueue) (t : Ticket) : Bool := q.waiting.contains t

/-- Queue up behind everyone else. The same ticket may hold several places. -/
def enqueue (q : WaitQueue) (t : Ticket) : WaitQueue := ⟨q.waiting ++ [t]⟩

/-- Take the oldest ticket off the queue; it is the one that is woken. -/
def wakeOne (q : WaitQueue) : Option Ticket × WaitQueue :=
  match q.waiting with
  | [] => (none, q)
  | t :: ts => (some t, ⟨ts⟩)

end WaitQueue

/-- The wake-up token of one sleeper. -/
structure Parker where
  notified : Bool
  deriving DecidableEq

namespace Parker

/-- No wake-up is pending. -/
def new : Parker := ⟨false⟩

/-- Leave a wake-up, unless one is pending already. -/
def unpark (_ : Parker) : Parker := ⟨true⟩

/-- Take the pending wake-up; without one the caller sleeps. -/
def park? (p : Parker) : Option Parker := if p.notified then some ⟨false⟩ else none

end Parker

/-- A queue and the parkers that its tickets stand for: ticket `i` is the `i`-th parker made. -/
structure WaitRoom where
  queue : WaitQueue
  parkers : Array Parker
  deriving DecidableEq

namespace WaitRoom

def empty : WaitRoom := ⟨.empty, #[]⟩

/-- Make a new parker. Its ticket is the number of parkers made before. -/
def addParker (r : WaitRoom) : WaitRoom := { r with parkers := r.parkers.push .new }

def enqueue (r : WaitRoom) (t : Ticket) : WaitRoom := { r with queue := r.queue.enqueue t }

/-- Leave a wake-up with parker `t`. -/
def unpark (r : WaitRoom) (t : Ticket) : WaitRoom :=
  { r with parkers := r.parkers.modify t Parker.unpark }

/-- Wake the oldest waiter; tells whether there was one. -/
def wakeOne (r : WaitRoom) : Bool × WaitRoom :=
  match r.queue.wakeOne with
  | (none, _) => (false, r)
  | (some t, q) => (true, WaitRoom.unpark { r with queue := q } t)

/-- Sleep on parker `t`: `none` if the caller would sleep or there is no such parker. -/
def park? (r : WaitRoom) (t : Ticket) : Option WaitRoom := do
  let p ← r.parkers[t]?
  let p ← p.park?
  return { r with parkers := r.parkers.setIfInBounds t p }

/-- Which parkers hold a pending wake-up. -/
def notified (r : WaitRoom) : List Bool := r.parkers.toList.map Parker.notified

end WaitRoom

end DemandPaging
