import DemandPaging.Kernel.Spawn
import DemandPaging.Kernel.Check

/-!
# Sessions

A session runs several kernels side by side. The page tables of all processes are common to them, so
a process made by one kernel can be handed to another. A call runs until it ends or falls asleep.
Sleeping calls stay in the session, and those that were woken go on in the order in which they were
woken.
-/

namespace DemandPaging

/-- A pinned frame that someone keeps, with the kernel it belongs to. -/
structure Guard where
  kernel : Nat
  pin : PinnedFrame
  deriving DecidableEq

/-- A call that runs on a kernel. What it makes is kept under `name`; `label` tells its caller which
call it is. -/
structure Caller (τ : Type) where
  label : τ
  name : String
  kernel : Nat
  call : Call

/-- Several kernels, the page tables of all processes, the events so far, the sleeping calls, and the
processes and guards that are kept by name. -/
structure Session (τ : Type) where
  kernels : Array Kernel
  tables : Array PageTable
  log : Array Event
  sleepers : List (Caller τ)
  processes : List (String × UserProcess)
  guards : List (String × Guard)

namespace Session

variable {τ α : Type}

/-- A session of kernels that have just started. -/
def ofKernels (kernels : Array Kernel) : Session τ := ⟨kernels, #[], #[], [], [], []⟩

/-- Kernel number `k` as a machine. -/
def machine? (s : Session τ) (k : Nat) : Option Machine :=
  s.kernels[k]?.map fun kernel => ⟨kernel, s.tables, s.log⟩

/-- The session after kernel number `k` changed. -/
def withMachine (s : Session τ) (k : Nat) (m : Machine) : Session τ :=
  { s with kernels := s.kernels.setIfInBounds k m.kernel, tables := m.tables, log := m.log }

/-- Perform an action that does not wait. `none` if there is no such kernel. -/
def perform? (s : Session τ) (k : Nat) (a : Action α) :
    Option (Except (Stop VmError) α × Session τ) :=
  (s.machine? k).map fun m =>
    match a.run m with
    | .ok x m' => (.ok x, s.withMachine k m')
    | .error e m' => (.error e, s.withMachine k m')

/-! ## What calls make -/

/-- The page table of a process. -/
def table (s : Session τ) (p : UserProcess) : PageTable := s.tables[p.table.index]?.getD .empty

def process? (s : Session τ) (name : String) : Option UserProcess := s.processes.lookup name

/-- Drop the guard that is kept under a name, if there is one. -/
def dropGuard? (s : Session τ) (name : String) : Option (Except (Stop VmError) Unit × Session τ) := do
  let g ← s.guards.lookup name
  perform? { s with guards := s.guards.filter (·.1 ≠ name) } g.kernel (Action.unpin g.pin.frame)

/-- The session without a guard of the given name. -/
def withoutGuard (s : Session τ) (name : String) : Session τ :=
  match s.dropGuard? name with
  | none => s
  | some (_, s') => s'

/-- Keep the process or the guard that a call has made. It takes the place of one with the same
name, and a guard that loses its place is dropped. -/
def keep (s : Session τ) (x : Caller τ) : Outcome → Session τ
  | .returned (.spawned p) =>
    { s with processes := (x.name, p) :: s.processes.filter (·.1 ≠ x.name) }
  | .returned (.pinned g) =>
    let s := s.withoutGuard x.name
    { s with guards := (x.name, ⟨x.kernel, g⟩) :: s.guards }
  | _ => s

/-- Run a call. If it falls asleep it stays in the session; otherwise its outcome comes back. -/
def run (s : Session τ) (x : Caller τ) : Option Outcome × Session τ :=
  match s.machine? x.kernel with
  | none => (none, s)
  | some m =>
    match x.call.run m with
    | (.finished o, m') => (some o, (s.withMachine x.kernel m').keep x o)
    | (.ongoing c, m') =>
      let s := s.withMachine x.kernel m'
      (none, { s with sleepers := s.sleepers ++ [{ x with call := c }] })

/-! ## Waking up -/

/-- The ticket of a call that was woken. -/
def wokenTicket? (s : Session τ) (x : Caller τ) : Option Ticket :=
  match x.call.stage, s.machine? x.kernel with
  | .waiting ticket, some m => if x.call.isAsleep m then none else some ticket
  | _, _ => none

/-- Of the given calls, take out the one that was woken first: the one with the lowest ticket. -/
def takeWoken (s : Session τ) : List (Caller τ) → Option (Ticket × Caller τ × List (Caller τ))
  | [] => none
  | x :: xs =>
    match s.wokenTicket? x, takeWoken s xs with
    | none, none => none
    | none, some (t, y, rest) => some (t, y, x :: rest)
    | some t, none => some (t, x, xs)
    | some t, some (t', y, rest) =>
      if t ≤ t' then some (t, x, xs) else some (t', y, x :: rest)

/-- Let the call that was woken first go on. It comes back with its outcome, if it ended. -/
def resumeOne? (s : Session τ) : Option (Caller τ × Option Outcome × Session τ) :=
  (s.takeWoken s.sleepers).map fun (_, x, rest) =>
    let (o, s') := run { s with sleepers := rest } x
    (x, o, s')

/-- A bound on how often calls can be woken before all of them sleep or have ended: every step of a
call wakes at most one other, apart from a teardown, which wakes one for each frame. -/
def wakeBound (s : Session τ) : Nat :=
  let frames := s.kernels.foldl (fun n k => n + k.config.frameCount) 0
  s.sleepers.foldr (fun x n => x.call.stepsLeft + frames + 1 + n) 1

end Session

end DemandPaging
