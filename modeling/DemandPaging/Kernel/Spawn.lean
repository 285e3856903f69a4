import DemandPaging.Kernel.Call

/-!
# Creating processes

A process is created from an executable and a list of arguments. The arguments go into the last page
of the address space: first one pointer per argument, then the arguments themselves, each followed
by a zero byte.
-/

namespace DemandPaging

/-! ## The argument block -/

/-- One step of laying out the arguments. -/
inductive ArgumentStep where
  | write (a : VirtualAddress) (bytes : Bytes)
  /-- The next address, `size` bytes further on, does not exist. -/
  | tooLong (size : Nat)
  deriving DecidableEq

namespace ArgumentBlock

/-- Bytes that the arguments take with their pointers and zero bytes. -/
def size : List Bytes → Nat
  | [] => 0
  | arg :: rest => argumentPointerSize + arg.length + 1 + size rest

/-- The same, added up from the first argument on, if no sum on the way is too large for a byte
count. -/
def size? (args : List Bytes) : Option Nat :=
  args.foldlM (fun total arg => addBytes? total (argumentPointerSize + arg.length + 1)) 0

theorem foldlM_addBytes? {total : Nat} (h : total < sizeBound) (args : List Bytes) :
    args.foldlM (fun total arg => addBytes? total (argumentPointerSize + arg.length + 1)) total =
      addBytes? total (size args) := by
  induction args generalizing total with
  | nil => exact (if_pos h).symm
  | cons arg rest ih =>
    rw [List.foldlM_cons, size]
    by_cases hsum : total + (argumentPointerSize + arg.length + 1) < sizeBound
    · rw [addBytes?, if_pos hsum, Option.bind_eq_bind, Option.bind_some, ih hsum, addBytes?,
        addBytes?, Nat.add_assoc]
    · rw [addBytes?, if_neg hsum, addBytes?, if_neg (by omega)]
      rfl

/-- No sum on the way is too large if the last one is not. -/
theorem size?_of_lt {args : List Bytes} (h : size args < sizeBound) :
    size? args = some (size args) := by
  rw [size?, foldlM_addBytes? (by decide), addBytes?, Nat.zero_add, if_pos h]

theorem size?_of_le {args : List Bytes} (h : sizeBound ≤ size args) : size? args = none := by
  rw [size?, foldlM_addBytes? (by decide), addBytes?, Nat.zero_add, if_neg (Nat.not_lt.mpr h)]

/-- The four bytes of a word, the least significant first. -/
def littleEndian (w : UInt32) : Bytes :=
  [w.toUInt8, (w >>> 8).toUInt8, (w >>> 16).toUInt8, (w >>> 24).toUInt8]

/-- Lay out the arguments from number `index` on. Their pointers are in the table at `table`, and
their bytes go to `strings`. -/
def stepsFrom (table : VirtualAddress) : List Bytes → (index : Nat) → (strings : VirtualAddress) →
    List ArgumentStep
  | [], _, _ => []
  | arg :: rest, index, strings =>
    match table.add? (index * argumentPointerSize) with
    | none => [.tooLong (index * argumentPointerSize)]
    | some slot =>
      let bytes := arg ++ [0]
      .write slot (littleEndian strings.val) :: .write strings bytes ::
        match strings.add? bytes.length with
        | none => [.tooLong bytes.length]
        | some next => stepsFrom table rest (index + 1) next

/-- Lay out a table of pointers at `table`, and the arguments behind it. -/
def steps (table : VirtualAddress) (args : List Bytes) : List ArgumentStep :=
  match table.add? (args.length * argumentPointerSize) with
  | none => [.tooLong (args.length * argumentPointerSize)]
  | some strings => stepsFrom table args 0 strings

end ArgumentBlock

/-- A step of laying out arguments as a task. -/
def ArgumentStep.toTask : ArgumentStep → Task
  | .write a bytes => .copy (.ofWrite a bytes)
  | .tooLong size => .refuse (.argumentsTooLong size)

namespace Action

/-! ## New processes -/

/-- Draw the next process identity. -/
def drawPid : Action ProcessId := do
  let m ← get
  let pid := m.kernel.nextPid
  set { m with kernel := { m.kernel with nextPid := pid.next } }
  return pid

/-- Make a process with a page table of its own and register it. -/
def register (image : Executable) (layout : Layout) (mode : PagingMode) (argc : Nat) :
    Action UserProcess := do
  let pid ← drawPid
  match UserProcess.initialTable image layout with
  | .error e => fail (.pageTable e)
  | .ok table =>
    match layout.stackTop? with
    | none => violate .overflow
    | some argv =>
      let m ← get
      let p : UserProcess := ⟨pid, image, layout, mode, argc, argv, ⟨m.tables.size⟩⟩
      set { m with
        tables := m.tables.push table
        kernel := { m.kernel with registry := m.kernel.registry.insert p } }
      return p

/-- Begin to create a process. What comes back is the call that loads its pages and writes its
arguments. -/
def spawn (image : Executable) (args : List Bytes) (mode : PagingMode) : Action Call := do
  match Layout.ofSections image.sections (← get).kernel.config.stackPages with
  | .error e => throw e
  | .ok layout =>
    match ArgumentBlock.size? args with
    | none => violate .overflow
    | some size =>
      if maxArgumentBytes < size then fail (.argumentsTooLong size)
      else
        let p ← register image layout mode args.length
        let arguments := (ArgumentBlock.steps p.argv args).map ArgumentStep.toTask
        return ⟨p, .spawn, .load mode :: arguments, .seeking⟩

end Action

/-- Create a process and let nothing else happen meanwhile, until the process is there, or its creation
has failed or waits for a frame. -/
def Machine.spawn (m : Machine) (image : Executable) (args : List Bytes) (mode : PagingMode) :
    Progress × Machine :=
  match (Action.spawn image args mode).run m with
  | .ok c m' => c.run m'
  | .error stop m' => (.finished (.ofStop stop), m')

end DemandPaging
