import DemandPaging.Proofs.ArgumentBlock
import DemandPaging.Proofs.Causes
import DemandPaging.Proofs.Partition

/-!
# Which arguments are too long

Whether arguments fit their page is decided by their size, before a process is made. When they are laid
out later, the address behind the last of them is computed although nothing is written there, and a
block that fills the last page of the 32-bit addresses (`Layout.Brims`) has no such address. A process
with these arguments is never created, although they fit; for all others the size decides
(`System.arguments_rejected_exactly`).
-/

namespace DemandPaging

/-- Below the end of the addresses there is an address. -/
theorem VirtualAddress.exists_add?_of_lt {a : VirtualAddress} {n : Nat}
    (h : a.toNat + n < wordBound) : ∃ b, a.add? n = some b ∧ b.toNat = a.toNat + n := by
  have hadd : a.add? n = some ⟨UInt32.ofNat (a.toNat + n)⟩ := if_pos h
  exact ⟨_, hadd, toNat_of_add? hadd⟩

namespace ArgumentBlock

variable {table : VirtualAddress} {args : List Bytes}

/-- The errors that steps of laying out arguments are there for. -/
def refusals (steps : List ArgumentStep) : List VmError :=
  (steps.map ArgumentStep.toTask).filterMap Task.refusal?

/-- The error about the argument behind which there is no address. -/
def lastTooLong (args : List Bytes) : List VmError :=
  args.getLast?.toList.map fun arg => .argumentsTooLong (arg.length + 1)

theorem lastTooLong_cons_cons (arg arg' : Bytes) (rest : List Bytes) :
    lastTooLong (arg :: arg' :: rest) = lastTooLong (arg' :: rest) := by
  rw [lastTooLong, List.getLast?_cons_cons, lastTooLong]

theorem eq_nil_of_length_strings (h : (strings args).length = 0) : args = [] := by
  cases args with
  | nil => rfl
  | cons arg rest =>
    rw [length_strings_cons] at h
    omega

/-- Arguments behind their table are refused if they end where the addresses do. -/
theorem refusals_stepsFrom {rest : List Bytes} {index : Nat} {next : VirtualAddress}
    (hslots : table.toNat + argumentPointerSize * (index + rest.length) ≤ next.toNat)
    (hfits : next.toNat + (strings rest).length ≤ wordBound) :
    refusals (stepsFrom table rest index next) =
      if next.toNat + (strings rest).length = wordBound then lastTooLong rest else [] := by
  induction rest generalizing index next with
  | nil => simp [stepsFrom, refusals, lastTooLong]
  | cons arg rest ih =>
    have hnext : next.toNat < wordBound := next.val.toNat_lt
    rw [List.length_cons, Nat.mul_add, Nat.mul_succ] at hslots
    rw [length_strings_cons] at hfits ⊢
    obtain ⟨slot, hslot, -⟩ := @VirtualAddress.exists_add?_of_lt table (index * argumentPointerSize)
      (by rw [Nat.mul_comm]; omega)
    have hbytes : (arg ++ [0] : Bytes).length = arg.length + 1 := List.length_append
    by_cases hend : next.toNat + (arg.length + 1) < wordBound
    · obtain ⟨next', hadd, hnext'⟩ := VirtualAddress.exists_add?_of_lt hend
      have hrest := @ih (index + 1) next'
        (by rw [hnext', Nat.mul_add, Nat.mul_succ]; omega) (by omega)
      rw [hnext', Nat.add_assoc] at hrest
      have hsteps : refusals (stepsFrom table (arg :: rest) index next) =
          refusals (stepsFrom table rest (index + 1) next') := by
        simp only [stepsFrom, hslot, hbytes, hadd]
        rfl
      rw [hsteps, hrest]
      cases rest with
      | nil =>
        rw [if_neg (by simp [strings]; omega), if_neg (by simp [strings]; omega)]
      | cons arg' rest => rw [lastTooLong_cons_cons]
    · have hnil : rest = [] := eq_nil_of_length_strings (by omega)
      subst hnil
      have hadd : next.add? (arg.length + 1) = none := if_neg hend
      rw [if_pos (by omega)]
      simp only [stepsFrom, hslot, hbytes, hadd]
      rfl

/-- Arguments that fit are refused if the block ends where the addresses do. -/
theorem refusals_steps (hfits : table.toNat + size args ≤ wordBound) :
    refusals (steps table args) =
      if table.toNat + size args = wordBound then lastTooLong args else [] := by
  have htable : table.toNat < wordBound := table.val.toNat_lt
  rw [size_eq] at hfits ⊢
  have hroom : table.toNat + args.length * argumentPointerSize < wordBound := by
    rw [Nat.mul_comm]
    cases args with
    | nil => exact htable
    | cons arg rest =>
      rw [length_strings_cons] at hfits
      omega
  obtain ⟨next, hadd, hnext⟩ := VirtualAddress.exists_add?_of_lt hroom
  have hsteps : steps table args = stepsFrom table args 0 next := by
    rw [steps, hadd]
  rw [Nat.mul_comm] at hnext
  rw [hsteps, refusals_stepsFrom (by rw [hnext, Nat.zero_add]) (by omega), hnext, Nat.add_assoc]

end ArgumentBlock

/-- The arguments fill their page, and 32-bit addresses do not reach beyond it. -/
def Layout.Brims (l : Layout) (args : List Bytes) : Prop :=
  l.numPages = maxProcessPages ∧ ArgumentBlock.size args = maxArgumentBytes

instance (l : Layout) (args : List Bytes) : Decidable (l.Brims args) :=
  inferInstanceAs (Decidable (_ ∧ _))

/-- Of the arguments that fit their page those are refused that leave no address behind them. -/
theorem Layout.refusals_steps {sections : List Section} {stackPages : Nat} {l : Layout}
    (h : ofSections sections stackPages = .ok l) {argv : VirtualAddress}
    (hargv : l.stackTop? = some argv) {args : List Bytes}
    (hsize : ArgumentBlock.size args ≤ maxArgumentBytes) :
    ArgumentBlock.refusals (ArgumentBlock.steps argv args) =
      if l.Brims args then ArgumentBlock.lastTooLong args else [] := by
  obtain ⟨-, -, hbase, hpage⟩ := PageNumber.base?_spec hargv
  have hlast := toNat_argumentPage h
  have hbytes : maxArgumentBytes = pageSize := Nat.one_mul pageSize
  have hend : argv.toNat + ArgumentBlock.size args = wordBound ↔ l.Brims args := by
    simp only [Brims, maxProcessPages, pageSize, wordBound] at *
    omega
  rw [ArgumentBlock.refusals_steps (by omega)]
  simp only [hend]

/-- The call that creates a process may refuse the last of the arguments, if there is no address behind
it, and nothing else. -/
theorem Action.Birth.refusals {m m' : Machine} {image : Executable} {args : List Bytes}
    {mode : PagingMode} {c : Call} (h : Birth m image args mode (.ok c m')) {l : Layout}
    (hlayout : Layout.ofSections image.sections m.kernel.config.stackPages = .ok l) :
    c.stage = .seeking ∧
      c.refusals = if l.Brims args then ArgumentBlock.lastTooLong args else [] := by
  cases h with
  | begun pid index himage fits absent layout table argv argc size =>
    cases hlayout.symm.trans layout
    exact ⟨rfl, Layout.refusals_steps layout argv size⟩

/-- The process that a call has returned. -/
def Progress.created? : Progress → Option UserProcess
  | .finished (.returned (.spawned p)) => some p
  | _ => none

theorem Progress.exists_created {pr : Progress} (h : pr.created?.isSome = true) :
    ∃ p, pr = .finished (.returned (.spawned p)) := by
  unfold created? at h
  split at h
  · exact ⟨_, rfl⟩
  · cases h

namespace System

variable {s : System} {image : Executable} {args : List Bytes} {mode : PagingMode} {o : Outcome}

/-- The creation of a process ends with the outcome `o`: at once, or when its call ends, whatever moves
there are in between. -/
inductive SpawnEnds (s : System) (image : Executable) (args : List Bytes) (mode : PagingMode)
    (o : Outcome) : Prop
  | atOnce (outcome : (s.move (.spawn image args mode)).1 = some o)
  | later {s' : System} (outcome : (s.move (.spawn image args mode)).1 = none)
      (completes : CompletesAmid (fun _ _ => True) (s.after (.spawn image args mode))
        s.calls.length o s')

section

variable {l : Layout}
  (hlayout : Layout.ofSections image.sections s.machine.kernel.config.stackPages = .ok l)
include hlayout

/-- Arguments that do not fit are refused at once. -/
theorem move_spawn_of_long (hlong : maxArgumentBytes < ArgumentBlock.size args) :
    s.move (.spawn image args mode) = (some (.ofStop (ArgumentBlock.overlong args)), s) := by
  rcases move_spawn s image args mode with ⟨stop, hrefused, hmove⟩ | ⟨c, m, hbirth, -⟩
  · rcases hrefused with hnone | ⟨-, -, rfl⟩
    · cases hlayout.symm.trans hnone
    · exact hmove
  · cases hbirth with
    | begun pid index himage fits absent layout table argv argc size =>
      exact absurd hlong (Nat.not_lt.mpr size)

/-- Arguments that fit are left to a call, and it may only refuse the last of them. -/
theorem exists_call_of_fits (hfits : ArgumentBlock.size args ≤ maxArgumentBytes) :
    (s.move (.spawn image args mode)).1 = none ∧
      ∃ c, (s.after (.spawn image args mode)).calls[s.calls.length]? = some c ∧ c.stage = .seeking ∧
        c.refusals = if l.Brims args then ArgumentBlock.lastTooLong args else [] := by
  rcases move_spawn s image args mode with ⟨stop, hrefused, -⟩ | ⟨c, m, hbirth, hmove⟩
  · rcases hrefused with hnone | ⟨-, hlong, -⟩
    · cases hlayout.symm.trans hnone
    · exact absurd hlong (Nat.not_lt.mpr hfits)
  · rw [after, hmove]
    exact ⟨rfl, c, List.getElem?_concat_length, hbirth.refusals hlayout⟩

theorem SpawnEnds.leads (h : s.SpawnEnds image args mode o)
    (hfits : ArgumentBlock.size args ≤ maxArgumentBytes) :
    ∃ c : Call, c.Leads VmError.OfWork (.finished o) ∧ c.stage = .seeking ∧
      c.refusals = if l.Brims args then ArgumentBlock.lastTooLong args else [] := by
  obtain ⟨hnone, c, hc, hstage, hrefusals⟩ :=
    @exists_call_of_fits s image args mode l hlayout hfits
  cases h with
  | atOnce outcome => cases hnone.symm.trans outcome
  | later _ completes => exact ⟨c, completes.leads hc, hstage, hrefusals⟩

/-- Nothing else comes of arguments that do not fit. -/
theorem SpawnEnds.eq_of_long (h : s.SpawnEnds image args mode o)
    (hlong : maxArgumentBytes < ArgumentBlock.size args) :
    o = .ofStop (ArgumentBlock.overlong args) := by
  have hmove := @move_spawn_of_long s image args mode l hlayout hlong
  cases h with
  | atOnce outcome =>
    rw [hmove] at outcome
    exact (Option.some.inj outcome).symm
  | later outcome _ =>
    rw [hmove] at outcome
    cases outcome

/-- If the addresses go on behind the arguments, the size decides. -/
theorem SpawnEnds.argumentsTooLong_iff (h : s.SpawnEnds image args mode o) (hbrims : ¬ l.Brims args)
    (size : Nat) : (∃ copied, o = .failed (.argumentsTooLong size) copied) ↔
      maxArgumentBytes < ArgumentBlock.size args ∧ ArgumentBlock.size args < sizeBound ∧
        size = ArgumentBlock.size args := by
  by_cases hlong : maxArgumentBytes < ArgumentBlock.size args
  · rw [h.eq_of_long hlayout hlong]
    rcases Nat.lt_or_ge (ArgumentBlock.size args) sizeBound with hcount | hmany
    · rw [ArgumentBlock.overlong_of_lt hcount]
      constructor
      · rintro ⟨copied, heq⟩
        cases heq
        exact ⟨hlong, hcount, rfl⟩
      · rintro ⟨-, -, rfl⟩
        exact ⟨none, rfl⟩
    · rw [ArgumentBlock.overlong_of_le hmany]
      refine iff_of_false ?_ fun hsize => Nat.not_lt.mpr hmany hsize.2.1
      rintro ⟨copied, heq⟩
      cases heq
  · refine iff_of_false ?_ fun hsize => hlong hsize.1
    rintro ⟨copied, rfl⟩
    obtain ⟨c, hleads, hstage, hrefusals⟩ := h.leads hlayout (Nat.not_lt.mp hlong)
    have hmem := hleads.mem_refusals hstage fun hwork => hwork
    rw [hrefusals, if_neg hbrims] at hmem
    exact List.not_mem_nil hmem

/-- If they do not, there is no process with these arguments. -/
theorem SpawnEnds.of_brims (h : s.SpawnEnds image args mode o) (hbrims : l.Brims args) :
    (∀ a, o ≠ .returned a) ∧ ∀ size copied, o = .failed (.argumentsTooLong size) copied →
      ∃ arg, args.getLast? = some arg ∧ size = arg.length + 1 := by
  obtain ⟨c, hleads, hstage, hrefusals⟩ := h.leads hlayout (Nat.le_of_eq hbrims.2)
  obtain ⟨arg, hlast⟩ : ∃ arg, args.getLast? = some arg := by
    cases args with
    | nil => cases hbrims.2
    | cons arg rest => exact ⟨_, List.getLast?_eq_some_getLast (List.cons_ne_nil arg rest)⟩
  have hone : c.refusals = [.argumentsTooLong (arg.length + 1)] := by
    rw [hrefusals, if_pos hbrims, ArgumentBlock.lastTooLong, hlast]
    rfl
  constructor
  · rintro a rfl
    cases hone.symm.trans hleads
  · rintro size copied rfl
    have hmem := hleads.mem_refusals hstage fun hwork => hwork
    rw [hone] at hmem
    cases List.mem_singleton.mp hmem
    exact ⟨arg, hlast, rfl⟩

/-- **Which arguments are too long.** Let there be a layout for the executable. Arguments that do not
fit their page are refused at once, and nothing has changed: with their size if that is a byte count,
and otherwise the sum overflows. Unless they fill the last page that 32-bit addresses reach, the
creation of the process ends with this error for no other reason, and with no other number, whatever
moves there are in between. If they do, no process comes of it: the arguments fit, and yet if their
length is given as the reason, it is that of the last of them with its zero byte. -/
theorem arguments_rejected_exactly :
    (maxArgumentBytes < ArgumentBlock.size args → ArgumentBlock.size args < sizeBound →
      s.move (.spawn image args mode) =
        (some (.failed (.argumentsTooLong (ArgumentBlock.size args)) none), s)) ∧
    (sizeBound ≤ ArgumentBlock.size args →
      s.move (.spawn image args mode) = (some (.violated .overflow), s)) ∧
    (¬ l.Brims args → ∀ o, s.SpawnEnds image args mode o → ∀ size,
      (∃ copied, o = .failed (.argumentsTooLong size) copied) ↔
        maxArgumentBytes < ArgumentBlock.size args ∧ ArgumentBlock.size args < sizeBound ∧
          size = ArgumentBlock.size args) ∧
    (l.Brims args → ∀ o, s.SpawnEnds image args mode o →
      (∀ a, o ≠ .returned a) ∧ ∀ size copied, o = .failed (.argumentsTooLong size) copied →
        ∃ arg, args.getLast? = some arg ∧ size = arg.length + 1) := by
  refine ⟨fun hlong hcount => ?_, fun hmany => ?_,
    fun hbrims _ h => h.argumentsTooLong_iff hlayout hbrims,
    fun hbrims _ h => h.of_brims hlayout hbrims⟩
  · rw [move_spawn_of_long hlayout hlong, ArgumentBlock.overlong_of_lt hcount]
    rfl
  · have hlong : maxArgumentBytes < ArgumentBlock.size args := Nat.lt_of_lt_of_le (by decide) hmany
    rw [move_spawn_of_long hlayout hlong, ArgumentBlock.overlong_of_le hmany]
    rfl

end

/-- A system with four frames that nobody has used yet. -/
def unused (stackPages : Nat) : System :=
  ofMachine (Machine.started ⟨4, stackPages, true⟩ (.empty none))

/-- One argument of `n` bytes. -/
def lone (n : Nat) : List Bytes := [List.replicate n 97]

theorem size_replicate (n : Nat) (arg : Bytes) :
    ArgumentBlock.size (List.replicate n arg) = n * (arg.length + 5) := by
  induction n with
  | zero =>
    rw [Nat.zero_mul]
    rfl
  | succ n ih =>
    rw [List.replicate_succ, ArgumentBlock.size, ih, Nat.succ_mul, argumentPointerSize]
    omega

theorem size_lone (n : Nat) : ArgumentBlock.size (lone n) = n + 5 := by
  have h := size_replicate 1 (List.replicate n 97)
  rwa [List.length_replicate, Nat.one_mul] at h

/-- A process with one page of stack and an argument that fills its page is about to be created. -/
def begun : System := (unused 1).after (.spawn (.zeroes "none" 0) (lone 1019) .demand)

/-- Arguments that together have too many bytes for a byte count. -/
def countless : List Bytes := List.replicate (2 ^ 30) (List.replicate (2 ^ 34) 97)

theorem sizeBound_le_size_countless : sizeBound ≤ ArgumentBlock.size countless := by
  rw [countless, size_replicate, List.length_replicate]
  decide

/-- With one page of stack, an argument of 1020 bytes is refused, and with one of 1019 bytes a process
is created. With the largest stack no process comes of it. Arguments that cannot be counted stop the
creation. -/
theorem arguments_rejected_exactly_lone :
    (unused 1).move (.spawn (.zeroes "none" 0) (lone 1020) .demand) =
      (some (.failed (.argumentsTooLong 1025) none), unused 1) ∧
    (∃ p, (unused 1).SpawnEnds (.zeroes "none" 0) (lone 1019) .demand (.returned (.spawned p))) ∧
    (∀ o, (unused 4194303).SpawnEnds (.zeroes "none" 0) (lone 1019) .demand o →
      ∀ a, o ≠ .returned a) ∧
    (unused 1).move (.spawn (.zeroes "none" 0) countless .demand) =
      (some (.violated .overflow), unused 1) := by
  refine ⟨?_, ?_, fun o h => ?_,
    (@arguments_rejected_exactly (unused 1) (.zeroes "none" 0) _ .demand ⟨[⟨0, 0⟩], 0, 2⟩ rfl).2.1
      sizeBound_le_size_countless⟩
  · have hlong : maxArgumentBytes < ArgumentBlock.size (lone 1020) := by
      rw [size_lone]
      decide
    have hmove := (@arguments_rejected_exactly (unused 1) (.zeroes "none" 0) _ .demand
      ⟨[⟨0, 0⟩], 0, 2⟩ rfl).1 hlong (by rw [size_lone]; decide)
    rwa [size_lone] at hmove
  · obtain ⟨hnone, c, hc, -⟩ := @exists_call_of_fits (unused 1) (.zeroes "none" 0) (lone 1019)
      .demand ⟨[⟨0, 0⟩], 0, 2⟩ rfl (Nat.le_of_eq (size_lone 1019))
    have hc' : begun.calls[0]? = some c := hc
    have hspawned : (begun.calls[0]?.any fun c =>
        (c.runFor 16 begun.machine).1.created?.isSome) = true := by decide +kernel
    rw [hc', Option.any_some] at hspawned
    obtain ⟨p, hrun⟩ := Progress.exists_created hspawned
    obtain ⟨s', hcompletes, -⟩ := exists_completes_of_runFor hc' (Prod.ext hrun rfl)
    exact ⟨p, .later hnone hcompletes⟩
  · have hbrims : (⟨[⟨0, 0⟩], 0, 4194304⟩ : Layout).Brims (lone 1019) := ⟨rfl, size_lone 1019⟩
    exact ((arguments_rejected_exactly rfl).2.2.2 hbrims o h).1

end System

end DemandPaging
