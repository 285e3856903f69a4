import DemandPaging.Kernel.Spawn
import DemandPaging.Kernel.Check
import DemandPaging.Text.Numeral

/-!
# The simulator

A handful of processes share a small physical memory. Each of them fills its pages with a pattern
and reads them back, round after round, and every page that reads back wrong is counted. The report
ends with the statistics of the kernel.
-/

namespace DemandPaging.Simulator

/-! ## Options -/

/-- What can be chosen on the command line. -/
structure Options where
  frames : Nat
  processes : Nat
  pages : Nat
  rounds : Nat
  mode : PagingMode
  level : Level
  deriving DecidableEq

/-- Why a command line is refused. -/
inductive UsageError where
  | badNumber (arg : String) (fault : Numeral.Fault)
  | tooManyNumbers (count : Nat)
  | needsFrame
  deriving DecidableEq

namespace UsageError

def message : UsageError → String
  | badNumber arg fault => s!"{arg}: {fault}"
  | tooManyNumbers count => s!"expected at most 4 numbers, got {count}"
  | needsFrame => "need at least one frame"

end UsageError

/-- What the arguments read so far have chosen. -/
structure Choices where
  numbers : List Nat
  mode : PagingMode
  level : Level

/-- Read the arguments one by one; switches may stand anywhere among the numbers. -/
def readArguments : Choices → List String → Except UsageError Choices
  | c, [] => .ok c
  | c, arg :: args =>
    if arg = "--eager" then readArguments { c with mode := .eager } args
    else if arg = "-v" then readArguments { c with level := .debug } args
    else if arg = "-vv" then readArguments { c with level := .trace } args
    else
      match Numeral.read arg.toList with
      | .ok n => readArguments { c with numbers := c.numbers ++ [n] } args
      | .error fault => .error (.badNumber arg fault)

/-- The options of a command line: frames, processes, pages and rounds, as far as given. -/
def Options.ofArguments (args : List String) : Except UsageError Options := do
  let c ← readArguments ⟨[], .demand, .warn⟩ args
  if 4 < c.numbers.length then throw (.tooManyNumbers c.numbers.length)
  let number (i default : Nat) : Nat := c.numbers[i]?.getD default
  if number 0 8 = 0 then throw .needsFrame
  return ⟨number 0 8, number 1 3, number 2 6, number 3 4, c.mode, c.level⟩

/-! ## The work of one process -/

/-- What tells the patterns of processes, pages and rounds apart. -/
def patternSeed (pid : ProcessId) (page : PageNumber) (round : Nat) : Nat :=
  (pid.val * 31 + page.val * 7).toNat + round

/-- The byte that fills a page in a round: the last eight bits of the seed, unless the seed is too
large. -/
def pattern? (pid : ProcessId) (page : PageNumber) (round : Nat) : Option UInt8 :=
  if patternSeed pid page round < sizeBound then some (UInt8.ofNat (patternSeed pid page round))
  else none

/-- One access to a whole page. -/
inductive PageAccess where
  | fill (page round : Nat)
  | verify (page round : Nat)
  deriving DecidableEq

/-- The page that is accessed. -/
def PageAccess.page : PageAccess → PageNumber
  | .fill page _ | .verify page _ => .ofNat page

/-- Fill all pages, then verify all pages, round after round. Without pages there is nothing to do. -/
def accesses (pages rounds : Nat) : List PageAccess :=
  if pages = 0 then []
  else (List.range rounds).flatMap fun round =>
    (List.range pages).map (.fill · round) ++ (List.range pages).map (.verify · round)

/-- A process at work: the accesses left to do, the pages that read back wrong, and what ended the
work early. -/
structure Worker where
  process : UserProcess
  todo : List PageAccess
  mismatches : Nat
  ended : Option (Stop VmError)

namespace Worker

/-- The worker whose work ends with `stop`. -/
def stopped (w : Worker) (stop : Stop VmError) : Worker := { w with ended := some stop }

/-- Go on after a call that copied a page and left the machine `m`. -/
def afterCall (w : Worker) (p : Progress) (m : Machine) (onCopy : Copy → Worker × Machine) :
    Worker × Machine :=
  match p with
  | .finished (.returned (.copied c)) => onCopy c
  | .finished (.returned _) => (w, m)
  | .finished (.failed e _) => (w.stopped (.error e), m)
  | .finished (.violated v) => (w.stopped (.violation v), m)
  | .ongoing _ => (w.stopped (.violation .outOfBounds), m)

/-- Fill a page with the pattern of a round. -/
def fill (w : Worker) (page : PageNumber) (start : VirtualAddress) (round : Nat) (m : Machine) :
    Worker × Machine :=
  match pattern? w.process.pid page round with
  | none => (w.stopped (.violation .overflow), m)
  | some b =>
    let (p, m) := (Call.write w.process start (List.replicate pageSize b)).run m
    w.afterCall p m fun _ => (w, m)

/-- Compare what was read with the pattern of a round. -/
def compare (w : Worker) (page : PageNumber) (round : Nat) (found : Bytes) (m : Machine) :
    Worker × Machine :=
  match pattern? w.process.pid page round with
  | none => (w.stopped (.violation .overflow), m)
  | some expected =>
    if found.all (· = expected) then (w, m)
    else ({ w with mismatches := w.mismatches + 1 },
      { m with log := m.log.push (.wrongContent w.process.pid page expected round) })

/-- Read a page back and compare it with the pattern of a round. -/
def verify (w : Worker) (page : PageNumber) (start : VirtualAddress) (round : Nat) (m : Machine) :
    Worker × Machine :=
  let (p, m) := (Call.read w.process start pageSize).run m
  w.afterCall p m fun c => w.compare page round c.bytes m

/-- Perform an access. -/
def perform (w : Worker) (a : PageAccess) (m : Machine) : Worker × Machine :=
  match a.page.base? with
  | none => (w.stopped (.violation .overflow), m)
  | some start =>
    match a with
    | .fill _ round => w.fill a.page start round m
    | .verify _ round => w.verify a.page start round m

/-- Perform the next access, unless the work has ended. -/
def turn (w : Worker) (m : Machine) : Worker × Machine :=
  match w.ended, w.todo with
  | none, a :: as => { w with todo := as }.perform a m
  | _, _ => (w, m)

end Worker

/-- Let the workers take turns: each number in the list names the worker whose turn it is. -/
def takeTurns : List Nat → List Worker → Machine → List Worker × Machine
  | [], ws, m => (ws, m)
  | i :: is, ws, m =>
    match ws[i]? with
    | none => takeTurns is ws m
    | some w =>
      let (w, m) := w.turn m
      takeTurns is (ws.set i w) m

/-- The turns if every worker does all its work before the next one begins. -/
def oneByOne (ws : List Worker) : List Nat :=
  ws.zipIdx.flatMap fun (w, i) => List.replicate w.todo.length i

/-- The pages that read back wrong, unless some worker ended early: then why the first of them
did. -/
def totalMismatches : List Worker → Except (Stop VmError) Nat
  | [] => .ok 0
  | w :: ws =>
    match w.ended with
    | some stop => .error stop
    | none => (totalMismatches ws).map (w.mismatches + ·)

/-! ## The run -/

/-- Create one process of `pages` pages of zeroes; its arguments are the name of the simulator and its
own number. -/
def spawnOne (o : Options) (index : Nat) (m : Machine) : Except (Stop VmError) UserProcess × Machine :=
  -- a string of bytes takes up less than half of the addresses
  if sizeBound ≤ 2 * (o.pages * pageSize) then (.error (.violation .overflow), m)
  else
    let image := Executable.zeroes ".data" o.pages
    let args := ["vmsim", toString index].map fun s => s.toUTF8.toList
    match m.spawn image args o.mode with
    | (.finished (.returned (.spawned p)), m) => (.ok p, m)
    | (.finished (.failed e _), m) => (.error (.error e), m)
    | (.finished (.violated v), m) => (.error (.violation v), m)
    | (_, m) => (.error (.violation .outOfBounds), m)

/-- Create `n` processes, the first of them with number `index`. -/
def spawnAll (o : Options) : (n index : Nat) → Machine → Except (Stop VmError) (List UserProcess) × Machine
  | 0, _, m => (.ok [], m)
  | n + 1, index, m =>
    match spawnOne o index m with
    | (.error stop, m) => (.error stop, m)
    | (.ok p, m) =>
      let (ps, m) := spawnAll o n (index + 1) m
      (ps.map (p :: ·), m)

/-- Release the memory of all processes. -/
def releaseAll : List UserProcess → Action Unit
  | [] => pure ()
  | p :: ps => do
    Action.tearDown p
    releaseAll ps

/-- The lines that a printed message takes up. A carriage return at the end of a line belongs to the
line break. -/
def linesOf (message : String) : List String :=
  (message.toList.splitOn '\n').map fun line =>
    String.ofList (if line.getLast? = some '\r' then line.dropLast else line)

/-- What a run prints, message by message, and the status with which it exits. -/
structure Report where
  status : Nat
  messages : List String
  deriving DecidableEq

/-- What a run prints, line by line. -/
def Report.lines (r : Report) : List String := r.messages.flatMap linesOf

/-- The visible events as messages. -/
def logMessages (level : Level) (log : Array Event) : List String :=
  (log.toList.filter (·.isVisible level)).map fun e => s!"[{e.level}] {e.target}: {e.message}"

/-- The statistics of a run. -/
def summary (o : Options) (k : Kernel) : String :=
  let s := k.stats
  s!"{o.frames} frames, {o.processes} processes x {o.pages} pages: {s.faults} faults, "
    ++ s!"{s.evictions} evictions, {s.swapWrites} swap writes, {s.swapReads} swap reads, "
    ++ s!"{s.blocks} blocks, {k.swap.size} pages in swap"

/-- The report on a run that ended with `result` after printing `messages`. -/
def conclude (messages : List String) : Except (Stop VmError) Nat → Report
  | .ok 0 => ⟨0, messages⟩
  | .ok n => ⟨1, messages ++ [s!"vmsim: {n} mismatches"]⟩
  | .error (.error e) => ⟨1, messages ++ [s!"vmsim: {e}"]⟩
  | .error (.violation _) => ⟨101, messages⟩

/-- Release all processes after a run without disagreements. Every frame must then be free. -/
def finish (o : Options) (ps : List UserProcess) (mismatches : Nat) (m : Machine) : Report :=
  let messages := logMessages o.level m.log ++ [summary o m.kernel]
  match (releaseAll ps).run { m with log := #[] } with
  | .error stop m => conclude (messages ++ logMessages o.level m.log) (.error stop)
  | .ok () m =>
    let result := if m.kernel.frames.freeCount = o.frames then .ok mismatches
      else .error (.violation .outOfBounds)
    conclude (messages ++ logMessages o.level m.log) result

/-- The processes before they start to work. -/
def workers (o : Options) (ps : List UserProcess) : List Worker :=
  ps.map fun p => ⟨p, accesses (min o.pages (wordBound - 1)) o.rounds, 0, none⟩

/-- Let the processes work in the given order, then check the machine. -/
def exercise (o : Options) (ps : List UserProcess) (turns : List Nat) (m : Machine) : Report :=
  let (ws, m) := takeTurns turns (workers o ps) m
  match totalMismatches ws with
  | .error stop => conclude (logMessages o.level m.log) (.error stop)
  | .ok mismatches =>
    match m.check with
    | .error v => conclude (logMessages o.level m.log) (.error (.violation v))
    | .ok (some e) =>
      conclude (logMessages o.level (m.log.push (.inconsistent e))) (.ok (mismatches + 1))
    | .ok none => finish o ps mismatches m

/-- A whole run, in which the order of the work is chosen by `turns`. -/
def runInOrder (o : Options) (turns : List Worker → List Nat) : Report :=
  let config := Config.default.withFrameCount o.frames
  match Machine.boot config (.empty none) with
  | .error v => conclude [] (.error (.violation v))
  | .ok m =>
    match spawnAll o o.processes 0 m with
    | (.error stop, m) => conclude (logMessages o.level m.log) (.error stop)
    | (.ok ps, m) => exercise o ps (turns (workers o ps)) m

/-- A whole run: one process works after the other. -/
def run (o : Options) : Report := runInOrder o oneByOne

/-- The report on a command line. -/
def reportOn (args : List String) : Report :=
  match Options.ofArguments args with
  | .error e => ⟨2, ["vmsim: " ++ e.message]⟩
  | .ok o => run o

end DemandPaging.Simulator
