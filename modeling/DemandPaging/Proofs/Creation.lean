import DemandPaging.Proofs.ArgumentLimit
import DemandPaging.Proofs.Consistency
import DemandPaging.Proofs.Failures

/-!
# A creation that fails leaves no trace

While a process is created it takes frames, pages of other processes make room for it, and pages of
its own may be saved. If its creation fails after all of that, the process is torn down again.

`Call.Creates` says what is true at every stage of a creation that runs alone: whatever was there when
the process joined is as it was. The step in which the creation fails is a teardown, which takes away
what belongs to the process and nothing else, so the machine is left as if the process had never been
(`Machine.Untraced`), but for the identity that was given out.
-/

namespace DemandPaging

open Machine

namespace Machine

/-- Whatever was in the machine `m` is as before in `m'`, and nothing there belongs to the process
`pid`. -/
structure Untraced (m m' : Machine) (pid : ProcessId) : Prop where
  dead : m'.process? pid = none
  cleared : m'.Cleared pid
  registry : ∀ q : ProcessId, m'.process? q = m.process? q
  content : ∀ q page, m.Registered q → m'.content? q page = m.content? q page
  pins : ∀ f, (m'.frameInfo? f).map (·.pins) = (m.frameInfo? f).map (·.pins)

/-- One process more, and the next identity has been given out. -/
theorem Census.next_of_append {m m' : Machine} {ps : List UserProcess} {p : UserProcess}
    (h : m.Census ps) (h' : m'.Census (ps ++ [p])) :
    m'.kernel.nextPid = m.kernel.nextPid.next := by
  rw [h'.nextPid, h.nextPid, List.length_append]
  exact congrArg ProcessId.mk (UInt32.ofNat_add _ _)

end Machine

/-- The ledger while the call `c` creates the process `p`. -/
def Ledger.creating (l : Ledger) (p : UserProcess) (c : Call) : Ledger :=
  { l with processes := l.processes ++ [p], pinned := c.frame?.toList ++ l.pinned }

namespace Call

/-- The call creates the process `p`, which joined the machine `m₀` with the ledger `l`. Since then
nothing else has happened, and whatever was there is as it was. -/
structure Creates (c : Call) (p : UserProcess) (m₀ : Machine) (l : Ledger) (m : Machine) : Prop where
  process : c.process = p
  purpose : c.purpose = .spawn
  valid : c.Valid
  recorded : c.Recorded m
  sound : m.Sound (l.creating p c)
  size : m.kernel.frames.directory.size = m₀.kernel.frames.directory.size
  registry : ∀ pid, m.process? pid = if pid = p.pid then some p else m₀.process? pid
  content : ∀ q page, m₀.Registered q → m.content? q page = m₀.content? q page

variable {m₀ m m' : Machine} {l : Ledger} {c c' : Call} {p : UserProcess}

/-! ## Steps -/

/-- A creation of a process begins with a machine in which nothing else is new. -/
theorem creates_joined (h : m₀.Sound l) (hroom : l.processes.length + 1 < wordBound)
    {image : Executable} {args : List Bytes} {mode : PagingMode}
    (hrun : (Action.spawn image args mode).run m₀ = .ok c m) :
    c.process.pid = m₀.kernel.nextPid ∧ c.Creates c.process m₀ l m := by
  have hspec := Action.spawn_spec m₀ image args mode
  rw [hrun] at hspec
  cases hspec with
  | @begun p t pid index himage fits absent layout table argv argc size =>
    refine ⟨pid, rfl, rfl, ⟨fun page kind hmem => ?_, fun _ => nofun, fun _ => nofun⟩, fun _ => nofun,
      h.joined hroom pid index fits absent, rfl, process?_joined m₀ p t,
      fun q page hq => content?_joined h hq page⟩
    obtain ⟨step, -, hstep⟩ := List.mem_map.mp ((List.mem_cons.mp hmem).resolve_left nofun)
    cases step <;> contradiction

/-- The creation of a process fails in the step that tears it down. -/
theorem Stepped.departure_of_failed {err : VmError} {copied : Option Copy}
    (hs : Stepped m l c (.finished (.failed err copied), m')) (hv : c.Valid)
    (hpurpose : c.purpose = .spawn) : ∃ e,
      Departure (m.noted (.spawnFailed c.process.pid e)) l c.process (.ok () m') ∧
        c.torn? = some c.process.pid ∧ c.frame? = none := by
  generalize hx : (Progress.finished (.failed err copied), m') = x at hs
  cases hs with
  | asleep stage parked => cases hx
  | quiet stage quiet alike waiters =>
    cases hx
    exact absurd hpurpose (quiet.failed _ _ rfl)
  | @attempt m₁ page kind r ready wanted resolution run =>
    rcases r with ⟨grant, m₂⟩ | ⟨stop, m₂⟩
    · cases grant <;> cases hx
    · have hquiet := quiet_afterFailure hv stop
      rw [← (Prod.mk.inj hx).1] at hquiet
      exact absurd hpurpose (hquiet.failed _ _ rfl)
  | unpinned frame info pins writing valid continues => cases hx
  | kept stage wanted writing => cases hx
  | copied stage tasks turn copied valid run => cases hx
  | @undone e r stage departure =>
    refine ⟨e, ?_, by rw [torn?, stage], by rw [frame?, stage]⟩
    cases departure with
    | gone sound keeps idle waiters orderly unowned uncopied =>
      cases hx
      exact .gone sound keeps idle waiters orderly unowned uncopied
    | stopped sound keeps idle waiters orderly clings => cases hx

namespace Creates

variable (h : c.Creates p m₀ l m)
include h

/-- What a step of the call can do. -/
theorem stepped : Stepped m (l.creating p c) c (c.step m) := by
  have hmem : c.process ∈ l.processes ++ [p] := by
    rw [h.process]
    exact List.mem_append_right _ (List.mem_singleton_self p)
  refine c.step_spec h.sound hmem h.valid h.recorded fun f hf => ?_
  rw [Ledger.creating, hf]
  exact List.mem_cons_self

variable (hnew : m₀.process? p.pid = none)
include hnew

section Others

variable {q : UserProcess} (hq : m₀.Registered q)
include hq

omit h in
/-- Whoever was there before is not the new process. -/
theorem pid_ne : q.pid ≠ p.pid := by
  intro heq
  rw [Registered, heq, hnew] at hq
  contradiction

/-- Whoever was there before is there. -/
theorem registered : m.Registered q := by
  rw [Registered, h.registry, if_neg (pid_ne hnew hq)]
  exact hq

/-- The call writes to no page of those who were there before. -/
theorem target?_ne (page : PageNumber) : c.target? ≠ some (q.pid, page) := by
  intro htarget
  obtain ⟨w, -, hw⟩ := Option.map_eq_some_iff.mp htarget
  rw [h.process] at hw
  exact pid_ne hnew hq (congrArg Prod.fst hw).symm

end Others

/-- **A step of a creation leaves everything else as it was.** -/
theorem step (hstep : c.step m = (.ongoing c', m')) : c'.Creates p m₀ l m' := by
  have hs := h.stepped
  rw [hstep] at hs
  have htorn := hs.torn?_of_ongoing
  obtain ⟨loose, hloose, hsound⟩ := hs.sound h.sound (.refl _) h.valid
  have horderly := hs.orderly h.sound htorn
  have hspares := hs.spares h.recorded
  obtain ⟨hprocess, hvalid, hrecorded⟩ := hs.follows h.valid h.recorded
  rw [hloose fun _ hviolated => nomatch hviolated, broken_eq_nil htorn] at hsound
  refine ⟨hprocess.trans h.process, (hs.purpose h.valid).trans h.purpose, hvalid, hrecorded, hsound,
    horderly.size.trans h.size, fun pid => (horderly.registry pid).trans (h.registry pid),
    fun q page hq => ?_⟩
  rw [← h.content q page hq]
  refine hspares.content q page (h.registered hnew hq) ?_ (h.target?_ne hnew hq page)
  rw [htorn]
  nofun

/-- **A creation that fails leaves no trace.** -/
theorem untraced (h₀ : m₀.Sound l) {err : VmError} {copied : Option Copy}
    (hstep : c.step m = (.finished (.failed err copied), m')) :
    m'.Sound { l with processes := l.processes ++ [p] } ∧ m₀.Untraced m' p.pid := by
  have hs := h.stepped
  rw [hstep] at hs
  obtain ⟨e, hdeparture, htorn, hframe⟩ := hs.departure_of_failed h.valid h.purpose
  have hspares := hs.spares h.recorded
  cases hdeparture with
  | gone sound keeps idle waiters orderly unowned uncopied =>
    rw [Ledger.creating, hframe] at sound
    rw [h.process] at orderly unowned uncopied htorn
    have hregistry : ∀ pid, m'.process? pid = m₀.process? pid := by
      intro pid
      have hwithout := (orderly.registry pid).trans (process?_without ..)
      by_cases hpid : pid = p.pid
      · rw [hwithout, if_pos hpid, hpid, hnew]
      · rw [hwithout, if_neg hpid]
        exact (h.registry pid).trans (if_neg hpid)
    refine ⟨sound, (hregistry _).trans hnew, ⟨unowned, uncopied⟩, hregistry, fun q page hq => ?_,
      h₀.pins_eq sound (orderly.size.trans h.size) rfl rfl⟩
    rw [← h.content q page hq]
    refine hspares.content q page (h.registered hnew hq) ?_ (h.target?_ne hnew hq page)
    rw [htorn]
    exact fun heq => pid_ne hnew hq (Option.some.inj heq).symm

/-- A creation leaves no trace if it fails after any number of steps. -/
theorem untraced_of_runFor (h₀ : m₀.Sound l) {err : VmError} {copied : Option Copy} {n : Nat}
    (hrun : c.runFor n m = (.finished (.failed err copied), m')) :
    m'.Sound { l with processes := l.processes ++ [p] } ∧ m₀.Untraced m' p.pid := by
  induction n generalizing c m with
  | zero => cases hrun
  | succ n ih =>
    rw [runFor] at hrun
    split at hrun
    · next hstep =>
      cases hrun
      exact h.untraced hnew h₀ hstep
    · next hstep =>
      split at hrun
      · cases hrun
      · exact ih (h.step hnew hstep) hrun

end Creates

end Call

/-- The error that a call ended with. -/
def Progress.failure? : Progress → Option VmError
  | .finished (.failed e _) => some e
  | _ => none

theorem Progress.eq_of_failure? {pr : Progress} {e : VmError} (h : pr.failure? = some e) :
    ∃ copied, pr = .finished (.failed e copied) := by
  unfold failure? at h
  split at h
  · cases h
    exact ⟨_, rfl⟩
  · cases h

namespace Machine

/-- The creation of a process ends with the error `err` and leaves the machine `m'`, while nothing
else happens: it fails before there is a call for it, or after some steps of the call. -/
inductive SpawnFails (m : Machine) (image : Executable) (args : List Bytes) (mode : PagingMode)
    (err : VmError) (m' : Machine) : Prop
  | atOnce (run : (Action.spawn image args mode).run m = .error (.error err) m')
  | later {c : Call} {m₁ : Machine} {n : Nat} {copied : Option Copy}
      (begun : (Action.spawn image args mode).run m = .ok c m₁)
      (run : c.runFor n m₁ = (.finished (.failed err copied), m'))

/-- A creation that fails when it is run to its end. -/
theorem spawnFails_spawn {m : Machine} {image : Executable} {args : List Bytes} {mode : PagingMode}
    {err : VmError} (h : (m.spawn image args mode).1.failure? = some err) :
    m.SpawnFails image args mode err (m.spawn image args mode).2 := by
  cases hrun : (Action.spawn image args mode).run m with
  | ok c m₁ =>
    simp only [spawn, hrun] at h ⊢
    obtain ⟨copied, hfailed⟩ := Progress.eq_of_failure? h
    exact .later hrun (Prod.ext hfailed rfl)
  | error stop m₁ =>
    simp only [spawn, hrun] at h ⊢
    cases stop with
    | violation v => cases h
    | error e =>
      cases h
      exact .atOnce hrun

end Machine

namespace System

variable {s : System} {image : Executable} {args : List Bytes} {mode : PagingMode} {err : VmError}
  {m' : Machine}

/-- **A failed creation leaves no trace**, or only that an identity has been given out. In every system
that moves lead to from a machine that has just started, and in which no teardown has stopped half way,
let the creation of a process fail while nothing else happens. If there is no layout for the executable,
the machine is as it was, and the identity is still to be given out. So it is if the arguments are too
long, unless they fill the last page that 32-bit addresses reach: these are found too long when they have
been written. Then, and if the creation fails for another reason, whatever pages were brought in, saved
and written by then, the process that was to be is not registered and has no frame and no copy; the
processes that live are those that lived before, every page of them has its content, every frame has as
many pins as before, and the check of the machine passes. -/
theorem failed_spawn_leaves_no_trace {config : Config} {swap : Swap} {m : Machine}
    (hboot : Machine.boot config swap = .ok m) (hs : History Trusts (ofMachine m) s [])
    (hroom : s.HasRoom (.spawn image args mode))
    (hfails : s.machine.SpawnFails image args mode err m') :
    (∀ stop, Layout.ofSections image.sections s.machine.kernel.config.stackPages = .error stop →
      stop = .error err ∧ m' = s.machine) ∧
    ∀ layout, Layout.ofSections image.sections s.machine.kernel.config.stackPages = .ok layout →
      (¬ layout.Brims args → (∃ size, err = .argumentsTooLong size) → m' = s.machine) ∧
      (layout.Brims args ∨ (∀ size, err ≠ .argumentsTooLong size) →
        s.machine.Untraced m' s.machine.kernel.nextPid ∧ m'.check = .ok none ∧
          m'.kernel.nextPid = s.machine.kernel.nextPid.next) := by
  have hsound := (hs.answers hboot).machine
  have hspec := Action.spawn_spec s.machine image args mode
  cases hfails with
  | atOnce run =>
    rw [run] at hspec
    cases hspec with
    | refused cause =>
      rcases cause with hnone | ⟨⟨l, hlayout⟩, hlong, hargs⟩
      · exact ⟨fun stop hstop => ⟨Except.error.inj (hstop.symm.trans hnone), rfl⟩,
          fun layout hlayout => nomatch hlayout.symm.trans hnone⟩
      · refine ⟨fun stop hstop => ?_, fun layout _ => ⟨fun _ _ => rfl, ?_⟩⟩
        · cases hstop.symm.trans hlayout
        rintro (hbrims | hother)
        · exact absurd hlong (Nat.not_lt.mpr (Nat.le_of_eq hbrims.2))
        · exact absurd (ArgumentBlock.eq_of_overlong hargs.symm) (hother _)
  | @later c m₁ n copied begun run =>
    obtain ⟨hpid, hcreates⟩ := Call.creates_joined hsound hroom begun
    rw [begun] at hspec
    have hnew : s.machine.process? c.process.pid = none := by
      rw [hpid]
      exact hsound.census.process?_nextPid hroom
    obtain ⟨hsound', huntraced⟩ := hcreates.untraced_of_runFor hnew hsound run
    rw [hpid] at huntraced
    refine ⟨fun stop hstop => ?_, fun layout hlayout => ⟨fun hbrims herr => ?_, fun _ =>
      ⟨huntraced, hsound'.check rfl rfl, hsound.census.next_of_append hsound'.census⟩⟩⟩
    · cases hspec with
      | begun pid index himage fits absent layout table argv argc size =>
        cases hstop.symm.trans layout
    · obtain ⟨size, rfl⟩ := herr
      obtain ⟨hstage, hrefusals⟩ := hspec.refusals hlayout
      have hmem := (Call.leads_of_runFor run).mem_refusals hstage fun hwork => hwork
      rw [hrefusals, if_neg hbrims] at hmem
      cases hmem

/-- A system with two frames, which hold two pages that were written and never saved. -/
def occupied : System := (ofMachine (started ⟨2, 0, true⟩ (.empty none))).run
  [.spawn (.zeroes "first" 1) [] .demand, .step 0, .request 0 (.write ⟨1023⟩ [1, 2]), .step 0,
    .step 0, .step 0, .step 0, .step 0, .step 0, .step 0]

/-- To load the first page of a second process a page of the first is saved, and then the load fails.
Nothing is left of the second process. -/
theorem failed_spawn_leaves_no_trace_occupied : ∃ m',
    occupied.machine.SpawnFails unprovided [] .eager (.load (.noSuchSection 0)) m' ∧
      m'.kernel.stats.swapWrites = 1 ∧ occupied.machine.Untraced m' (ProcessId.ofNat 2) ∧
      m'.check = .ok none ∧ m'.kernel.nextPid = ProcessId.ofNat 3 := by
  have hspawn : (ofMachine (started ⟨2, 0, true⟩ (.empty none))).Trusts
      (.spawn (.zeroes "first" 1) [] .demand) := by
    refine ⟨show 0 + 1 < wordBound by decide, fun image args mode hmv => ?_⟩
    cases hmv
    exact Executable.zeroes_answers "first" 1
  have hhistory : History Trusts (ofMachine (started ⟨2, 0, true⟩ (.empty none))) occupied [] :=
    .move (.step 0) (.move (.step 0) (.move (.step 0) (.move (.step 0) (.move (.step 0)
      (.move (.step 0) (.move (.step 0) (.move (.request 0 (.write ⟨1023⟩ [1, 2])) (.move (.step 0)
      (.move (.spawn (.zeroes "first" 1) [] .demand) .start hspawn) (trusts_of_ne nofun))
      (trusts_of_ne nofun)) (trusts_of_ne nofun)) (trusts_of_ne nofun)) (trusts_of_ne nofun))
      (trusts_of_ne nofun)) (trusts_of_ne nofun)) (trusts_of_ne nofun)) (trusts_of_ne nofun)
  have hroom : occupied.HasRoom (.spawn unprovided [] .eager) := show 1 + 1 < wordBound by decide
  have hfails := @spawnFails_spawn occupied.machine unprovided [] .eager (.load (.noSuchSection 0))
    (by decide +kernel)
  refine ⟨_, hfails, by decide +kernel, ?_⟩
  have hlater := (@failed_spawn_leaves_no_trace occupied unprovided [] .eager _ _ ⟨2, 0, true⟩
    (.empty none) (started ⟨2, 0, true⟩ (.empty none)) rfl hhistory hroom hfails).2 _ rfl
  exact hlater.2 (Or.inr nofun)

end System

end DemandPaging
