import DemandPaging.PageTable

/-!
# Calls of a page table

Whoever holds a page table may call it in any order and for any pages. The calls are data, so that one
can speak of all sequences of them (`PageTable.History`). An entry that is put back is one that the
table gave out before, but on any page, and however much was changed meanwhile. A call is taken
statement by statement (`PageTable.Operation.perform`): what a statement has changed stays changed if a
later one fails or violates an assertion.
-/

namespace DemandPaging.PageTable

/-- A call of a page table. -/
inductive Operation where
  | entry (page : PageNumber)
  | install (page : PageNumber) (frame : FrameNumber) (referenced : Bool)
  | invalidate (page : PageNumber)
  | restore (page : PageNumber) (e : PageEntry)
  | markAccess (page : PageNumber) (write : Bool)
  | setReadOnly (page : PageNumber) (b : Bool)

/-- What a call is answered with. -/
inductive Reply where
  | done
  | entry (e : Option PageEntry)
  deriving DecidableEq

namespace Operation

/-- The page that the call is about. -/
def page : Operation → PageNumber
  | entry p | install p _ _ | invalidate p | restore p _ | markAccess p _ | setReadOnly p _ => p

/-- The call as one function of the table. -/
def apply (t : PageTable) : Operation → Except (Stop PageTableError) (Reply × PageTable)
  | entry p => .ok (.entry (t.get? p), t)
  | install p f referenced => (t.install p f referenced).map (.done, ·)
  | invalidate p => .ok (.entry (t.invalidate p).1, (t.invalidate p).2)
  | restore p e => ((t.restore p e).map (.done, ·)).mapError .error
  | markAccess p write => .ok (.done, t.markAccess p write)
  | setReadOnly p b => ((t.setReadOnly p b).map (.done, ·)).mapError .error

/-- The entry of a page, which must lie in the table. -/
def slot (p : PageNumber) : EStateM (Stop PageTableError) PageTable PageEntry := do
  match (← get).get? p with
  | none => throw (.error (.outOfRange p (← get).size))
  | some e => return e

/-- Replace the entry of a page. -/
def put (p : PageNumber) (e : PageEntry) : EStateM (Stop PageTableError) PageTable Unit :=
  modify (·.setEntry p e)

/-- The call, one statement after the other. -/
def perform : Operation → EStateM (Stop PageTableError) PageTable Reply
  | entry p => return .entry ((← get).get? p)
  | install p f referenced => do
    match PageEntry.frameBits? f with
    | none => throw (.error (.frameTooLarge f))
    | some v =>
      let e ← slot p
      if e.valid then throw (.violation (.installedTwice p))
      put p (.resident v e.readOnly referenced)
      return .done
  | invalidate p => do
    match (← get).get? p with
    | none => return .entry none
    | some old =>
      if old.valid then put p old.evicted
      return .entry (some old)
  | restore p e => do
    let _ ← slot p
    put p e
    return .done
  | markAccess p write => do
    match (← get).get? p with
    | none => return .done
    | some e =>
      if e.valid then
        put p (e.put .referenced true)
        if write then put p ((e.put .referenced true).put .dirty true)
      return .done
  | setReadOnly p b => do
    let e ← slot p
    put p (e.put .readOnly b)
    return .done

/-- The answer of the call or why it ended without one, and the table that it leaves behind. -/
def call (op : Operation) (t : PageTable) : Except (Stop PageTableError) Reply × PageTable :=
  match op.perform.run t with
  | .ok reply t' => (.ok reply, t')
  | .error stop t' => (.error stop, t')

end Operation

/-- A call that was made, and how it ended. -/
structure Record where
  operation : Operation
  outcome : Except (Stop PageTableError) Reply

/-- The entry that the call gave out. -/
def Record.given? (r : Record) : Option PageEntry :=
  match r.outcome with
  | .ok (.entry e) => e
  | _ => none

/-- The entries that were given out. -/
def given (past : List Record) : List PageEntry := past.filterMap Record.given?

/-- Only an entry that was given out can be put back. -/
def Operation.Known (past : List Record) : Operation → Prop
  | restore _ e => e ∈ given past
  | _ => True

/-- `History t₀ past t` says that the calls `past`, in this order, take the table from `t₀` to `t`.
Calls that fail or violate an assertion are calls like any other. -/
inductive History (t₀ : PageTable) : List Record → PageTable → Prop
  | start : History t₀ [] t₀
  | call {past : List Record} {t t' : PageTable} {op : Operation}
      {outcome : Except (Stop PageTableError) Reply} (before : History t₀ past t)
      (known : op.Known past) (call : op.call t = (outcome, t')) :
      History t₀ (past ++ [⟨op, outcome⟩]) t'

end DemandPaging.PageTable
