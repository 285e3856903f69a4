import DemandPaging.Text.Inspect

/-!
# A lock that serves tickets in order

Whoever wants the lock draws the next ticket and holds the lock once that ticket is served. Letting
the lock go serves the next one. The lock guards a value.
-/

namespace DemandPaging

/-- A lock: the ticket drawn next, the ticket being served, and the guarded value. -/
structure TicketLock (α : Type) where
  next : Nat
  serving : Nat
  value : α
  deriving DecidableEq

namespace TicketLock

variable {α : Type}

/-- A lock that nobody holds. -/
def new (a : α) : TicketLock α := ⟨0, 0, a⟩

/-- Some ticket that was drawn is not done with the lock. -/
def isLocked (l : TicketLock α) : Bool := l.next != l.serving

/-- Draw a ticket if it is served at once. -/
def acquire? (l : TicketLock α) : Option (TicketLock α) :=
  if l.isLocked then none else some { l with next := l.next + 1 }

/-- The holder lets the lock go: the next ticket is served. -/
def release (l : TicketLock α) : TicketLock α := { l with serving := l.serving + 1 }

/-- Change the value as the holder. -/
def set (l : TicketLock α) (a : α) : TicketLock α := { l with value := a }

/-- Run `f` on the value as a holder that comes and goes. The lock is let go however `f` ends, and
what `f` did to the value by then stays. `none` if the lock is held. -/
def withLock? {ε β : Type} (l : TicketLock α) (f : α → Except ε β × α) :
    Option (Except ε β × TicketLock α) :=
  l.acquire?.map fun held =>
    let (result, a) := f held.value
    (result, (held.set a).release)

instance : Inspect (TicketLock α) where
  inspect l := Inspect.openRecord "SpinLock" [("locked", inspect l.isLocked)]

end TicketLock

end DemandPaging
