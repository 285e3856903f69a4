import DemandPaging.Kernel.Config
import DemandPaging.Kernel.Event
import DemandPaging.Frames.PhysicalMemory

/-!
# The machine

A `Kernel` is one memory manager: its pool of frames with their bytes, its swap store, its register
of live processes and its counters. A `Machine` is a kernel together with the page tables of all
processes and the record of events.

Operations are `Action`s: they change the machine and end with a value, an error or a violation. A
machine that an action leaves behind is kept however the action ends.
-/

namespace DemandPaging

/-- Counts of what a kernel did. -/
structure Stats where
  /-- Faults that brought a page in. -/
  faults : Nat
  /-- Frames that the clock took from their owners. -/
  evictions : Nat
  swapWrites : Nat
  swapReads : Nat
  /-- Times a call had to wait because every frame was pinned. -/
  blocks : Nat
  deriving DecidableEq

namespace Stats

def zero : Stats := ⟨0, 0, 0, 0, 0⟩

end Stats

/-- The live processes by identity, in ascending order. -/
structure Registry where
  entries : List (ProcessId × UserProcess)

namespace Registry

def empty : Registry := ⟨[]⟩

def find? (r : Registry) (pid : ProcessId) : Option UserProcess := r.entries.lookup pid

def contains (r : Registry) (pid : ProcessId) : Bool := (r.find? pid).isSome

/-- Insert in front of the first larger identity. -/
def insertInto (pid : ProcessId) (p : UserProcess) :
    List (ProcessId × UserProcess) → List (ProcessId × UserProcess)
  | [] => [(pid, p)]
  | (k, q) :: rest =>
    if pid.toNat < k.toNat then (pid, p) :: (k, q) :: rest
    else if pid = k then (pid, p) :: rest
    else (k, q) :: insertInto pid p rest

/-- Register a process; it takes the place of a process with the same identity. -/
def insert (r : Registry) (p : UserProcess) : Registry := ⟨insertInto p.pid p r.entries⟩

def erase (r : Registry) (pid : ProcessId) : Registry :=
  ⟨r.entries.filter fun entry => entry.1 ≠ pid⟩

def toList (r : Registry) : List (ProcessId × UserProcess) := r.entries

theorem lookup_insertInto (pid k : ProcessId) (p : UserProcess)
    (l : List (ProcessId × UserProcess)) :
    (insertInto pid p l).lookup k = if k = pid then some p else l.lookup k := by
  induction l with
  | nil => by_cases h : k = pid <;> simp [insertInto, List.lookup_cons, h, beq_eq_false_iff_ne.2]
  | cons x l ih =>
    obtain ⟨a, q⟩ := x
    unfold insertInto
    by_cases hk : k = pid
    · subst hk
      split
      · simp
      · split
        · simp
        · rename_i hne
          simp [List.lookup_cons, beq_eq_false_iff_ne.2 hne, ih]
    · have hb : (k == pid) = false := beq_eq_false_iff_ne.2 hk
      split
      · simp [List.lookup_cons, hb]
      · split
        · rename_i heq
          subst heq
          simp [List.lookup_cons, hb]
        · simp [List.lookup_cons, hk, ih]

theorem find?_insert (r : Registry) (p : UserProcess) (k : ProcessId) :
    (r.insert p).find? k = if k = p.pid then some p else r.find? k :=
  lookup_insertInto p.pid k p r.entries

theorem find?_erase (r : Registry) (pid k : ProcessId) :
    (r.erase pid).find? k = if k = pid then none else r.find? k := by
  have h := KeyedList.lookup_filter (fun a : ProcessId => decide (a ≠ pid)) k r.entries
  unfold erase find?
  rw [h]
  by_cases hk : k = pid <;> simp [hk]

end Registry

/-- One memory manager. -/
structure Kernel where
  config : Config
  frames : FrameTable ProcessId
  stats : Stats
  registry : Registry
  memory : PhysicalMemory
  swap : Swap
  /-- The identity of the next process. -/
  nextPid : ProcessId

namespace Kernel

/-- A kernel that has just started: every frame is free, and the hand of the clock is at frame 0. -/
def boot (config : Config) (swap : Swap) : Except Violation Kernel :=
  if config.frameCount = 0 then .error .needsFrame
  else
    match FrameTable.ofSize? config.frameCount with
    | none => .error .overflow
    | some frames => .ok {
        config, frames, swap
        stats := .zero
        registry := .empty
        memory := .ofSize config.frameCount
        nextPid := ⟨1⟩ }

instance : Inspect Kernel where
  inspect k := Inspect.openRecord "VmKernel" [("config", inspect k.config), ("pool", inspect k.frames)]

end Kernel

/-- A kernel, the page tables of all processes ever made, and the events so far. -/
structure Machine where
  kernel : Kernel
  tables : Array PageTable
  log : Array Event

/-- A machine that has just started. -/
def Machine.boot (config : Config) (swap : Swap) : Except Violation Machine := do
  let kernel ← Kernel.boot config swap
  return ⟨kernel, #[], #[.booted config.frameCount config.stackPages config.referenceOnInstall]⟩

/-- A change of the machine that ends with a value of type `α`, an error or a violation. -/
abbrev Action (α : Type) := EStateM (Stop VmError) Machine α

namespace Machine

/-- The page table of a process. -/
def table (m : Machine) (p : UserProcess) : PageTable := m.tables[p.table.index]?.getD .empty

/-- The entry of a page of a process. -/
def entryOf? (m : Machine) (p : UserProcess) (page : PageNumber) : Option PageEntry :=
  (m.table p).get? page

/-- The registered process with a given identity. -/
def process? (m : Machine) (pid : ProcessId) : Option UserProcess := m.kernel.registry.find? pid

/-- What the directory says of a frame, if the frame exists. -/
def frameInfo? (m : Machine) (f : FrameNumber) : Option (FrameInfo ProcessId) :=
  m.kernel.frames.info? f

end Machine

namespace Action

variable {α : Type}

/-- End with an error. -/
def fail (e : VmError) : Action α := throw (.error e)

/-- End because an assertion does not hold. -/
def violate (v : Violation) : Action α := throw (.violation v)

/-- The value of `x`, or its violation. -/
def ofExcept (x : Except Violation α) : Action α :=
  match x with
  | .ok a => pure a
  | .error v => violate v

/-- Note an event. -/
def note (e : Event) : Action Unit := modify fun m => { m with log := m.log.push e }

/-- Change the pool of frames. -/
def onFrames (f : FrameTable ProcessId → Except Violation (α × FrameTable ProcessId)) :
    Action α := do
  let m ← get
  let (a, frames) ← ofExcept (f m.kernel.frames)
  set { m with kernel := { m.kernel with frames } }
  return a

/-- Count something. -/
def count (f : Stats → Stats) : Action Unit :=
  modify fun m => { m with kernel := { m.kernel with stats := f m.kernel.stats } }

/-- Change the page table of a process. -/
def onTable (p : UserProcess) (f : PageTable → PageTable) : Action Unit :=
  modify fun m => { m with tables := m.tables.modify p.table.index f }

/-- Replace the page table of a process, or end with the error of the change. -/
def changeTable (p : UserProcess) (f : PageTable → Except (Stop PageTableError) PageTable) :
    Action Unit := do
  let m ← get
  match f (m.table p) with
  | .ok t => set { m with tables := m.tables.setIfInBounds p.table.index t }
  | .error e => throw (e.mapError .pageTable)

/-- Change the bytes of the frames. -/
def onMemory (f : PhysicalMemory → Except Violation PhysicalMemory) : Action Unit := do
  let m ← get
  let memory ← ofExcept (f m.kernel.memory)
  set { m with kernel := { m.kernel with memory } }

/-- Replace the swap store. -/
def setSwap (swap : Swap) : Action Unit :=
  modify fun m => { m with kernel := { m.kernel with swap } }

/-- What the directory says of a frame. -/
def frameInfo (f : FrameNumber) : Action (FrameInfo ProcessId) := do
  match (← get).frameInfo? f with
  | none => violate .outOfBounds
  | some i => return i

/-- The bytes of a frame. -/
def frameBytes (f : FrameNumber) : Action Page := do
  ofExcept ((← get).kernel.memory.frame f)

/-! ## The pool, with its events -/

/-- Take a free frame for a page, pinned once; `none` if no frame is free. -/
def allocate (owner : ProcessId) (page : PageNumber) : Action (Option FrameNumber) := do
  match ← onFrames (·.allocate owner page) with
  | none => return none
  | some f =>
    note (.allocated f owner page)
    return some f

/-- Put a frame back on the free list. -/
def release (f : FrameNumber) : Action Unit := do
  onFrames fun t => (t.release f).map ((), ·)
  note (.released f)

/-- Add a pin to a frame. -/
def pin (f : FrameNumber) : Action Unit := onFrames fun t => (t.pin f).map ((), ·)

/-- Take a pin from a frame; the last one wakes the oldest waiter. -/
def unpin (f : FrameNumber) : Action Unit := onFrames fun t => (t.unpin f).map fun r => ((), r.2)

/-- Set or clear the referenced mark of a frame. -/
def setReferenced (f : FrameNumber) (b : Bool) : Action Unit :=
  onFrames fun t => (t.setReferenced f b).map ((), ·)

/-- Wake the oldest waiter, if there is one. -/
def wakeOne : Action Unit := onFrames fun t => .ok ((), t.wakeOne.2)

/-- Let the clock choose a victim; `none` if no frame is owned and unpinned. -/
def selectVictim : Action (Option FrameNumber) := do
  match ← onFrames fun t => .ok t.selectVictim with
  | none => return none
  | some f =>
    note (.choseVictim f (← frameInfo f) (← get).kernel.frames.clock.hand)
    return some f

end Action

end DemandPaging
