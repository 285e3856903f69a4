import DemandPaging.Swap

/-!
# Calls of a swap store

Whoever holds a store may call it in any order, for any owner and page, and with a buffer of any
length. The calls are data, so that one can speak of all sequences of them (`Swap.History`). A call is
taken statement by statement (`Swap.Operation.perform`): what a statement has changed, of the store or
of the buffer, stays changed if a later one fails.
-/

namespace DemandPaging.Swap

/-- A call, with the bytes that the caller hands over. -/
inductive Operation where
  | store (key : SwapKey) (frame : Bytes)
  | load (key : SwapKey) (buffer : Bytes)
  | discard (owner : ProcessId)

/-- What a call is answered with. -/
inductive Reply where
  | done
  /-- Whether a copy was found, which is in the buffer then. -/
  | found (found : Bool)
  deriving DecidableEq

/-- A store during a call, and the bytes that the caller handed over. -/
structure Lent where
  swap : Swap
  buffer : Bytes

namespace Operation

/-- The bytes that the caller hands over. -/
def buffer : Operation → Bytes
  | store _ frame => frame
  | load _ buffer => buffer
  | discard _ => []

/-- The call as one function of the store. The buffer comes back as it is afterwards. -/
def apply (s : Swap) : Operation → Except SwapError (Reply × Bytes × Swap)
  | store key frame => (s.store key frame).map fun s' => (.done, frame, s')
  | load key buffer =>
    (s.load key buffer.length).map fun
      | (none, s') => (.found false, buffer, s')
      | (some p, s') => (.found true, p.bytes, s')
  | discard owner => .ok (.done, [], s.discard owner)

/-- The call, one statement after the other. -/
def perform : Operation → EStateM SwapError Lent Reply
  | store key frame => do
    match Page.ofBytes? frame with
    | none => throw (.badFrameSize frame.length)
    | some p =>
      let s := (← get).swap
      match s.capacity with
      | none => pure ()
      | some c => if !s.contains key && c ≤ s.size then throw (.full c)
      modify fun l => { l with swap := l.swap.insert key p }
      modify fun l => { l with swap := { l.swap with stores := l.swap.stores + 1 } }
      return .done
  | load key buffer => do
    if (← get).swap.unreadable key.2 then throw (.badFrameSize buffer.length)
    if buffer.length ≠ pageSize then throw (.badFrameSize buffer.length)
    match (← get).swap.copy? key with
    | none => return .found false
    | some p =>
      modify fun l => { l with buffer := p.bytes }
      modify fun l => { l with swap := { l.swap with loads := l.swap.loads + 1 } }
      return .found true
  | discard owner => do
    modify fun l => { l with swap := l.swap.discard owner }
    return .done

/-- The answer of the call or why it failed, and the buffer and the store that it leaves behind. -/
def call (op : Operation) (s : Swap) : Except SwapError Reply × Bytes × Swap :=
  match op.perform.run ⟨s, op.buffer⟩ with
  | .ok reply l => (.ok reply, l.buffer, l.swap)
  | .error e l => (.error e, l.buffer, l.swap)

end Operation

/-- A call that was made, and how it ended. -/
structure Entry where
  operation : Operation
  outcome : Except SwapError Reply

/-- `History s₀ past s` says that the calls `past`, in this order, take the store from `s₀` to `s`.
Calls that fail are calls like any other. -/
inductive History (s₀ : Swap) : List Entry → Swap → Prop
  | start : History s₀ [] s₀
  | call {past : List Entry} {s s' : Swap} {op : Operation} {outcome : Except SwapError Reply}
      {buffer : Bytes} (before : History s₀ past s) (call : op.call s = (outcome, buffer, s')) :
      History s₀ (past ++ [⟨op, outcome⟩]) s'

/-- Make these calls one after the other: how they end, and the store that they leave behind. -/
def replay (s : Swap) : List Operation → List Entry × Swap
  | [] => ([], s)
  | op :: ops =>
    let (outcome, _, s') := op.call s
    let (past, s'') := s'.replay ops
    (⟨op, outcome⟩ :: past, s'')

end DemandPaging.Swap
