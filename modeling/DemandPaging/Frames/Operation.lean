import DemandPaging.Frames.FrameTable

/-!
# Calls of the pool

Whoever holds a pool may call it in any order and with any arguments. Here the calls are data, so
that one can speak of all sequences of them (`FrameTable.History`). Beside the pool stand the
parkers, which belong to the callers: they are made, unparked and slept on without the pool, but the
queue of the pool may hold them.

A call is taken statement by statement (`FrameTable.Operation.perform`). What a statement has
changed stays changed if a later one violates an assertion, so it is no matter of definition that a
refused call leaves the pool alone.
-/

namespace DemandPaging

/-- What a call of the pool, of its queue or of a parker is answered with. -/
inductive Reply where
  | done
  | frame (frame : Option FrameNumber)
  /-- Whether a waiter was woken. -/
  | woke (woke : Bool)
  /-- Whether a caller that wanted to sleep came back at once. -/
  | returned (returned : Bool)
  deriving DecidableEq

namespace WaitRoom

/-- A call of a queue, or of a parker that may be in it. -/
inductive Operation where
  | makeParker
  | enqueue (parker : Ticket)
  | wakeOne
  | unpark (parker : Ticket)
  | park (parker : Ticket)

namespace Operation

/-- The parker that the call is about. -/
def parker? : Operation → Option Ticket
  | makeParker | wakeOne => none
  | enqueue p | unpark p | park p => some p

def apply (r : WaitRoom) : Operation → Reply × WaitRoom
  | makeParker => (.done, r.addParker)
  | enqueue p => (.done, r.enqueue p)
  | wakeOne => (.woke r.wakeOne.1, r.wakeOne.2)
  | unpark p => (.done, r.unpark p)
  | park p =>
    match r.park? p with
    | none => (.returned false, r)
    | some r' => (.returned true, r')

end Operation

end WaitRoom

namespace FrameTable

variable {O : Type}

/-- A call of the pool. Its queue is called through `room`. -/
inductive Operation (O : Type) where
  | allocate (owner : O) (page : PageNumber)
  | release (frame : FrameNumber)
  | pin (frame : FrameNumber)
  | unpin (frame : FrameNumber)
  | setReferenced (frame : FrameNumber) (b : Bool)
  | selectVictim
  | room (operation : WaitRoom.Operation)

namespace Operation

/-- The frame that the call is about. -/
def frame? : Operation O → Option FrameNumber
  | release f | pin f | unpin f | setReferenced f _ => some f
  | allocate _ _ | selectVictim | room _ => none

/-- The call as one function of the pool. -/
def apply (t : FrameTable O) : Operation O → Except Violation (Reply × FrameTable O)
  | allocate owner page => (t.allocate owner page).map fun (f, t) => (.frame f, t)
  | release f => (t.release f).map (.done, ·)
  | pin f => (t.pin f).map (.done, ·)
  | unpin f => (t.unpin f).map fun (woke, t) => (.woke woke, t)
  | setReferenced f b => (t.setReferenced f b).map (.done, ·)
  | selectVictim => .ok (.frame t.selectVictim.1, t.selectVictim.2)
  | room op => .ok ((op.apply t.waiters).1, { t with waiters := (op.apply t.waiters).2 })

/-- The call, one statement after the other. -/
def perform : Operation O → EStateM Violation (FrameTable O) Reply
  | allocate owner page => do
    match (← get).free.pop? with
    | none => return .frame none
    | some (f, free) =>
      modify ({ · with free })
      let directory ← ofExcept ((← get).directory.assign f owner page)
      modify ({ · with directory })
      return .frame (some f)
  | release f => do
    match (← get).info? f with
    | none => throw .outOfBounds
    | some i =>
      if i.isFree then throw (.releasedWhileFree f)
      else if i.isPinned then throw (.releasedWhilePinned f)
      else
        let directory ← ofExcept ((← get).directory.clear f)
        modify ({ · with directory })
        let free ← ofExcept ((← get).free.push f)
        modify ({ · with free })
        return .done
  | pin f => do
    match (← get).info? f with
    | none => throw .outOfBounds
    | some i =>
      if i.isFree then throw (.pinnedWhileFree f)
      else if FrameInfo.maxPins ≤ i.pins then throw .overflow
      else
        modify fun t => { t with directory := t.directory.set f { i with pins := i.pins + 1 } }
        return .done
  | unpin f => do
    match (← get).info? f with
    | none => throw .outOfBounds
    | some i =>
      if i.isPinned then
        modify fun t => { t with directory := t.directory.set f { i with pins := i.pins - 1 } }
        if 1 < i.pins then return .woke false
        else
          let (woke, waiters) := (← get).waiters.wakeOne
          modify ({ · with waiters })
          return .woke woke
      else throw (.unpinnedWhileNotPinned f)
  | setReferenced f b => do
    let directory ← ofExcept ((← get).directory.update f fun i => { i with referenced := b })
    modify ({ · with directory })
    return .done
  | selectVictim => do
    let t ← get
    let (victim, clock, directory) := t.clock.selectVictim t.directory
    modify ({ · with clock, directory })
    return .frame victim
  | room op => do
    let (answer, waiters) := op.apply (← get).waiters
    modify ({ · with waiters })
    return answer

/-- The answer of the call, or the assertion that it violates, and the pool it leaves behind. -/
def call (op : Operation O) (t : FrameTable O) : Except Violation Reply × FrameTable O :=
  match op.perform.run t with
  | .ok answer t' => (.ok answer, t')
  | .error v t' => (.error v, t')

/-- A caller can only name a parker that was made. -/
def Names (t : FrameTable O) : Operation O → Prop
  | room op => ∀ p ∈ op.parker?, p < t.waiters.parkers.size
  | _ => True

instance (t : FrameTable O) (op : Operation O) : Decidable (op.Names t) :=
  match op with
  | room op => inferInstanceAs (Decidable (∀ p ∈ op.parker?, p < t.waiters.parkers.size))
  | allocate _ _ | release _ | pin _ | unpin _ | setReferenced _ _ | selectVictim => .isTrue trivial

end Operation

/-- A call that was made, and how it ended. -/
structure Entry (O : Type) where
  operation : Operation O
  outcome : Except Violation Reply

/-- `History t₀ past t` says that the calls `past`, in this order, take the pool from `t₀` to `t`.
Calls that violate an assertion are calls like any other. -/
inductive History (t₀ : FrameTable O) : List (Entry O) → FrameTable O → Prop
  | start : History t₀ [] t₀
  | call {past : List (Entry O)} {t t' : FrameTable O} {op : Operation O}
      {outcome : Except Violation Reply} (before : History t₀ past t) (names : op.Names t)
      (call : op.call t = (outcome, t')) : History t₀ (past ++ [⟨op, outcome⟩]) t'

/-- Make these calls one after the other: how they end, and the pool they leave behind. `none` if
one of them names a parker that was not made. -/
def replay? (t : FrameTable O) : List (Operation O) → Option (List (Entry O) × FrameTable O)
  | [] => some ([], t)
  | op :: ops =>
    if op.Names t then
      ((op.call t).2.replay? ops).map fun (past, t') => (⟨op, (op.call t).1⟩ :: past, t')
    else none

end FrameTable

end DemandPaging
