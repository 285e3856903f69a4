import DemandPaging.Frames.FreeList

/-!
# Calls of a free list

Whoever holds a free list may take frames off it and put any frames on it, in any order. The calls
are data, so that one can speak of all sequences of them (`FreeList.History`). A call is taken
statement by statement (`FreeList.Operation.perform`): what a statement has changed, of the stack or
of the marks, stays changed if a later one violates an assertion.
-/

namespace DemandPaging.FreeList

/-- A call of a free list. -/
inductive Operation where
  | pop
  | push (frame : FrameNumber)

/-- What a call is answered with. -/
inductive Reply where
  | done
  | frame (frame : Option FrameNumber)
  deriving DecidableEq

namespace Operation

/-- The call as one function of the list. -/
def apply (l : FreeList) : Operation → Except Violation (Reply × FreeList)
  | pop =>
    match l.pop? with
    | none => .ok (.frame none, l)
    | some (f, l') => .ok (.frame (some f), l')
  | push f => (l.push f).map (.done, ·)

/-- The mark of a frame, which must exist. -/
def mark (f : FrameNumber) : EStateM Violation FreeList Bool := do
  match (← get).listed[f.toNat]? with
  | none => throw .outOfBounds
  | some b => return b

/-- Set the mark of a frame, which must exist. -/
def setMark (f : FrameNumber) (b : Bool) : EStateM Violation FreeList Unit := do
  let _ ← mark f
  modify fun l => { l with listed := l.listed.setIfInBounds f.toNat b }

/-- The call, one statement after the other. -/
def perform : Operation → EStateM Violation FreeList Reply
  | pop => do
    match (← get).stack with
    | [] => return .frame none
    | f :: fs =>
      modify ({ · with stack := fs })
      setMark f false
      return .frame (some f)
  | push f => do
    if ← mark f then throw (.releasedTwice f)
    setMark f true
    modify fun l => { l with stack := f :: l.stack }
    return .done

/-- The answer of the call, or the assertion that it violates, and the list it leaves behind. -/
def call (op : Operation) (l : FreeList) : Except Violation Reply × FreeList :=
  match op.perform.run l with
  | .ok reply l' => (.ok reply, l')
  | .error v l' => (.error v, l')

end Operation

/-- A call that was made, and how it ended. -/
structure Entry where
  operation : Operation
  outcome : Except Violation Reply

/-- `History l₀ past l` says that the calls `past`, in this order, take the list from `l₀` to `l`.
Calls that violate an assertion are calls like any other. -/
inductive History (l₀ : FreeList) : List Entry → FreeList → Prop
  | start : History l₀ [] l₀
  | call {past : List Entry} {l l' : FreeList} {op : Operation} {outcome : Except Violation Reply}
      (before : History l₀ past l) (call : op.call l = (outcome, l')) :
      History l₀ (past ++ [⟨op, outcome⟩]) l'

/-- Make these calls one after the other: how they end, and the list that they leave behind. -/
def replay (l : FreeList) : List Operation → List Entry × FreeList
  | [] => ([], l)
  | op :: ops =>
    let (outcome, l') := op.call l
    let (past, l'') := l'.replay ops
    (⟨op, outcome⟩ :: past, l'')

end DemandPaging.FreeList
