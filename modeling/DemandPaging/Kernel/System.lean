import DemandPaging.Kernel.Spawn

/-!
# A machine in use

A system is a machine together with everything that its users hold: the processes, the calls in
flight and the pinned pages. Users make moves, and the swap store may become unreadable in between.
A move is one critical section, so a list of moves is an interleaving of calls, in which calls are
started, go one step, sleep and wake in any order. `System.Reachable` holds of the systems that moves
of a given kind can lead to; what is kept by every move of that kind holds of all of them.
-/

namespace DemandPaging

/-- What can be asked for on behalf of a process. -/
inductive Request where
  | fault (page : PageNumber)
  | load (mode : PagingMode)
  | pin (page : PageNumber) (kind : AccessKind)
  | read (start : VirtualAddress) (length : Nat)
  | write (start : VirtualAddress) (bytes : Bytes)
  | text (start : VirtualAddress) (max : Nat)
  deriving DecidableEq

/-- The call that serves a request. -/
def Request.toCall (p : UserProcess) : Request → Call
  | fault page => .fault p page
  | load mode => .loadSections p mode
  | pin page kind => .pin p page kind
  | read start length => .read p start length
  | write start bytes => .write p start bytes
  | text start max => .readText p start max

/-- A page that someone keeps pinned, and whose page it is. -/
structure HeldPage where
  process : UserProcess
  pin : PinnedFrame

/-- A machine, every process that it ever registered, the calls in flight, and the pages that are kept
pinned. -/
structure System where
  machine : Machine
  processes : List UserProcess
  calls : List Call
  held : List HeldPage

/-- The machine with a swap store that cannot read the given pages. -/
def Machine.spoiled (m : Machine) (unreadable : PageNumber → Bool) : Machine :=
  { m with kernel := { m.kernel with swap := { m.kernel.swap with unreadable } } }

/-- What can happen next. Processes, calls and held pages are named by their positions. -/
inductive Move where
  | spawn (image : Executable) (args : List Bytes) (mode : PagingMode)
  | request (process : Nat) (r : Request)
  /-- A call goes one step. -/
  | step (call : Nat)
  /-- Let go of a page. -/
  | drop (held : Nat)
  /-- Tear a process down. -/
  | release (process : Nat)
  /-- The swap store changes which pages it cannot read. -/
  | spoil (unreadable : PageNumber → Bool)

namespace System

/-- A machine that nobody has used yet. -/
def ofMachine (m : Machine) : System := ⟨m, [], [], []⟩

/-! ## Moves -/

/-- Perform an action that does not wait, and tell how it ended. -/
def perform (s : System) (a : Action Unit) : Option Outcome × System :=
  match a.run s.machine with
  | .ok () m => (some (.returned .done), { s with machine := m })
  | .error stop m => (some (.ofStop stop), { s with machine := m })

/-- Begin to create a process. -/
def spawn (s : System) (image : Executable) (args : List Bytes) (mode : PagingMode) :
    Option Outcome × System :=
  match (Action.spawn image args mode).run s.machine with
  | .ok c m =>
    (none, { s with machine := m, processes := s.processes ++ [c.process], calls := s.calls ++ [c] })
  | .error stop m => (some (.ofStop stop), { s with machine := m })

/-- The system after a call has ended. A page that it pinned is kept. -/
def keep (s : System) (c : Call) : Outcome → System
  | .returned (.pinned g) => { s with held := s.held ++ [⟨c.process, g⟩] }
  | _ => s

/-- Let call number `i` go one step. -/
def stepCall (s : System) (i : Nat) : Option Outcome × System :=
  match s.calls[i]? with
  | none => (none, s)
  | some c =>
    match c.step s.machine with
    | (.ongoing c', m) => (none, { s with machine := m, calls := s.calls.set i c' })
    | (.finished o, m) =>
      (some o, keep { s with machine := m, calls := s.calls.eraseIdx i } c o)

/-- Make a move. The outcome comes back if it ends a call; a move that names nothing changes
nothing. -/
def move (s : System) : Move → Option Outcome × System
  | .spawn image args mode => s.spawn image args mode
  | .request i r =>
    match s.processes[i]? with
    | none => (none, s)
    | some p => (none, { s with calls := s.calls ++ [r.toCall p] })
  | .step i => s.stepCall i
  | .drop i =>
    match s.held[i]? with
    | none => (none, s)
    | some g => perform { s with held := s.held.eraseIdx i } (Action.unpin g.pin.frame)
  | .release i =>
    match s.processes[i]? with
    | none => (none, s)
    | some p => s.perform (Action.tearDown p)
  | .spoil unreadable =>
    (none, { s with machine := s.machine.spoiled unreadable })

/-- The system after a move. -/
def after (s : System) (mv : Move) : System := (s.move mv).2

/-- The system after some moves. -/
def run (s : System) (moves : List Move) : System := moves.foldl after s

/-! ## Reachable systems -/

/-- The systems that can be reached from `start` by moves that are `allowed`. -/
inductive Reachable (allowed : System → Move → Prop) (start : System) : System → Prop
  | start : Reachable allowed start start
  | move {s : System} (mv : Move) :
    Reachable allowed start s → allowed s mv → Reachable allowed start (s.after mv)

/-- What holds at the start and is kept by every allowed move holds of every reachable system. -/
theorem Reachable.invariant {allowed : System → Move → Prop} {start s : System} {P : System → Prop}
    (h : Reachable allowed start s) (hstart : P start)
    (hmove : ∀ t mv, P t → allowed t mv → P (t.after mv)) : P s := by
  induction h with
  | start => exact hstart
  | move mv _ ha ih => exact hmove _ mv ih ha

/-- Runs can follow each other. -/
theorem Reachable.trans {allowed : System → Move → Prop} {start s s' : System}
    (h : Reachable allowed start s) (h' : Reachable allowed s s') : Reachable allowed start s' := by
  induction h' with
  | start => exact h
  | move mv _ ha ih => exact ih.move mv ha

/-- With more moves allowed, no less can be reached. -/
theorem Reachable.mono {allowed allowed' : System → Move → Prop} {start s : System}
    (h : Reachable allowed start s) (hall : ∀ t mv, allowed t mv → allowed' t mv) :
    Reachable allowed' start s := by
  induction h with
  | start => exact .start
  | move mv _ ha ih => exact ih.move mv (hall _ mv ha)

end System

end DemandPaging
