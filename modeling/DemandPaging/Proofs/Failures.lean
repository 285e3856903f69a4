import DemandPaging.Proofs.Attributes

/-!
# What failed faults leave behind

A fault, a pin or a copy that ends with an error ends so in an attempt to get at a page
(`Call.exists_failed_attempt`), and the attempt has lost nothing. If the access was refused, nothing
has happened. If no victim could be saved, the clock went round. If the page could not be brought
in, its frame is free again, and one other page at most had to make room for it.
-/

namespace DemandPaging

open Machine

namespace Call

variable {m m' : Machine} {l : Ledger} {c c' : Call} {err : VmError} {copied : Option Copy}

/-! ## Failing steps -/

/-- A call that creates no process has nothing to undo and no errors in store. -/
def Steady (c : Call) : Prop :=
  c.purpose ≠ .spawn → (∀ e, c.stage ≠ .undoing e) ∧ ∀ e, Task.refuse e ∉ c.tasks

theorem Stepped.steady (hs : Stepped m l c (.ongoing c', m')) (hv : c.Valid) (h : c.Steady) :
    c'.Steady := by
  intro hpurpose
  rcases hs.continues hv with ⟨hgoes, -⟩ | ⟨f, copy, copy', piece, rest, -, htasks, -, -, rfl⟩
  · rw [hgoes.purpose] at hpurpose
    obtain ⟨-, hrefuse⟩ := h hpurpose
    refine ⟨fun e hundo => hpurpose (hgoes.stage e hundo), fun e hmem => ?_⟩
    rcases hgoes.reduces.mem hmem with hold | ⟨next, stop, hnew⟩
    · exact hrefuse e hold
    · cases hnew
  · obtain ⟨-, hrefuse⟩ := h hpurpose
    refine ⟨fun e hundo => (by cases hundo), fun e hmem => hrefuse e ?_⟩
    rw [htasks]
    exact List.mem_cons_of_mem _ ((List.mem_cons.mp hmem).resolve_left nofun)

/-- Only the creation of a process has more to do when its tasks are done. -/
theorem conclude_eq_pure (hpurpose : c.purpose ≠ .spawn) (a : Answer) :
    ∃ a', c.conclude a = pure (.finished (.returned a')) := by
  unfold conclude
  split
  · contradiction
  · exact ⟨_, rfl⟩
  · exact ⟨_, rfl⟩

theorem endTask_eq_pure (hpurpose : c.purpose ≠ .spawn) (a : Answer) (rest : List Task) :
    ∃ pr, c.endTask a rest = pure pr ∧ ∀ e copied, pr ≠ .finished (.failed e copied) := by
  unfold endTask
  split
  · obtain ⟨a', ha'⟩ := conclude_eq_pure hpurpose a
    exact ⟨_, ha', fun _ _ => nofun⟩
  · exact ⟨_, rfl, fun _ _ => nofun⟩

section Failing

variable (hpurpose : c.purpose ≠ .spawn) (hload : ∀ mode, Task.load mode ∉ c.tasks)
  (hrefuse : ∀ e, Task.refuse e ∉ c.tasks)
include hpurpose hload hrefuse

/-- A call that wants no page goes on or ends, but it does not fail. -/
theorem begin_ne_failed (hwanted : c.wanted? = none) (m : Machine) :
    ∃ pr m', c.begin.run m = .ok pr m' ∧ ∀ e copied, pr ≠ .finished (.failed e copied) := by
  unfold wanted? at hwanted
  unfold begin
  cases ht : c.tasks with
  | nil =>
    obtain ⟨a, ha⟩ := conclude_eq_pure hpurpose .done
    exact ⟨.finished (.returned a), m, by rw [ha]; rfl, fun _ _ => nofun⟩
  | cons t rest =>
    cases t with
    | load mode => exact absurd (ht ▸ List.mem_cons_self) (hload mode)
    | refuse e => exact absurd (ht ▸ List.mem_cons_self) (hrefuse e)
    | hold page kind => simp only [ht] at hwanted; contradiction
    | touch next stop =>
      simp only [ht] at hwanted
      split at hwanted
      · contradiction
      · next hlt =>
        obtain ⟨pr, hpr, hne⟩ := endTask_eq_pure hpurpose .done rest
        refine ⟨pr, m, ?_, hne⟩
        simp only [hlt, if_false, hpr, EStateM.run_pure]
    | copy copy =>
      have hspawn : ¬ (c.purpose = .spawn ∧ copy.done < copy.length) := fun h => hpurpose h.1
      obtain ⟨pr, hpr, hne⟩ := endTask_eq_pure hpurpose (.copied copy) rest
      cases hturn : copy.turn c.process.layout with
      | piece piece => simp only [ht, hturn] at hwanted; contradiction
      | complete =>
        refine ⟨pr, m, ?_, hne⟩
        simp only [hturn, endCopy, hspawn, if_false, hpr, EStateM.run_pure]
      | outside a =>
        refine ⟨pr, m.noted (.copyStopped c.process.pid copy.kind a copy.done), ?_, hne⟩
        simp only [hturn, endCopy, hspawn, if_false, hpr, EStateM.run_bind, Action.run_note,
          EStateM.run_pure]

omit hpurpose hload hrefuse in
/-- An attempt after which the call has failed ended with an error. -/
theorem afterSeek_eq_failed {r : EStateM.Result (Stop VmError) Machine Grant}
    (h : c.afterSeek r = (.finished (.failed err copied), m')) : r = .error (.error err) m' := by
  rcases r with ⟨grant, m₂⟩ | ⟨stop, m₂⟩
  · cases grant <;> cases h
  · cases stop with
    | violation v => cases h
    | error e =>
      unfold afterSeek afterFailure at h
      dsimp only at h
      split at h
      · cases h
      · cases h
        rfl

/-- **A call fails in an attempt to get at a page.** -/
theorem exists_failed_attempt (hs : Stepped m l c (c.step m)) (hundo : ∀ e, c.stage ≠ .undoing e)
    (hstep : c.step m = (.finished (.failed err copied), m')) :
    ∃ m₁ page kind, c.Ready m m₁ ∧ c.wanted? = some (page, kind) ∧
      (Action.resolve c.process page kind).run m₁ = .error (.error err) m' := by
  generalize hx : c.step m = x at hs
  cases hs with
  | asleep stage parked => cases hx.symm.trans hstep
  | quiet stage quiet alike waiters =>
    cases hwanted : c.wanted? with
    | none =>
      obtain ⟨pr, m₂, hrun, hne⟩ := begin_ne_failed hpurpose hload hrefuse hwanted m
      have hproceed : c.proceed = c.begin := by rw [proceed, stage]
      have hpr : c.step m = (pr, m₂) := by rw [step, hproceed, hrun]
      exact absurd (Prod.mk.inj (hpr.symm.trans hstep)).1 (hne err copied)
    | some w =>
      obtain ⟨page, kind⟩ := w
      rw [step_of_seeking hwanted stage] at hstep
      exact ⟨m, page, kind, .seeking stage, rfl, afterSeek_eq_failed hstep⟩
  | @attempt m₁ page kind r ready wanted resolution run =>
    exact ⟨m₁, page, kind, ready, wanted, run.trans (afterSeek_eq_failed (hx.symm.trans hstep))⟩
  | unpinned frame info pins writing valid continues => cases hx.symm.trans hstep
  | kept stage wanted writing => cases hx.symm.trans hstep
  | copied stage tasks turn copied valid run => cases hx.symm.trans hstep
  | undone stage departure => exact absurd stage (hundo _)

end Failing

end Call

/-! ## Causes -/

/-- If the numbers of frames fit the entries, only the store and the executable are to blame. -/
theorem Action.Unfit.cause {p : UserProcess} {page : PageNumber} {f : FrameNumber} {err : VmError}
    (h : Unfit p page f err) {source : PageSource} (hsource : p.layout.source? page = some source)
    (hf : f.toNat ≤ maxEntryFrame) :
    (∃ e, err = .load e) ∨ ∃ n, err = .swap (.badFrameSize n) := by
  cases h with
  | unreadable => exact Or.inr ⟨_, rfl⟩
  | unavailable content => exact Or.inl (UserProcess.exists_load_of_error hsource content)
  | unencodable bits =>
    rw [PageEntry.frameBits?, if_pos hf] at bits
    contradiction

/-! ## All reachable systems -/

namespace System

variable {s : System} {p : UserProcess}

theorem steady_toCall (p : UserProcess) (r : Request) : (r.toCall p).Steady := by
  obtain ⟨hstage, -⟩ := toCall_begins p r
  refine fun _ => ⟨fun e hundo => ?_, fun e hmem => ?_⟩
  · rw [hstage] at hundo
    contradiction
  · cases r <;> cases List.mem_singleton.mp hmem

/-- Calls stay steady. -/
theorem Reachable.steady {config : Config} {swap : Swap} {m : Machine}
    (h : Reachable HasRoom (ofMachine m) s) (hboot : Machine.boot config swap = .ok m) :
    ∀ c ∈ s.calls, c.Steady := by
  refine h.invariant_of_sound (P := fun t => ∀ c ∈ t.calls, c.Steady) (sound_boot hboot)
    (fun _ hc => absurd hc List.not_mem_nil) fun t mv loose broken ht hroom hsteady c' hc' => ?_
  cases descends hc' with
  | stays mem => exact hsteady c' mem
  | @steps i c hmv call step =>
    have hmem := List.mem_of_getElem? call
    exact (stepped_ongoing ht call step).steady (ht.calls c hmem).2.1 (hsteady c hmem)
  | requested mem call => exact call ▸ steady_toCall _ _
  | spawned purpose stage tasks => exact fun hne => absurd purpose hne

/-- **A failed fault loses nothing.** In every system that moves lead to from a machine that has just
started, with no more frames than entries can name, let a call fail that neither creates a process
nor prepares all its pages. It failed in an attempt to get at a page, and compared with the machine in
which the attempt began, every page of every process that lives has its content. If the access was
refused, nothing has changed at all. If no victim could be saved, only the hand of the clock and the
marks of frames have. If the page could not be brought in, the attempt withdrew: the entry is as it
was and not resident, and no frame is on record for the page, unless one is stuck there because an
executable gave no answer. -/
theorem failed_fault_loses_nothing {config : Config} {swap : Swap} {m : Machine}
    (hboot : Machine.boot config swap = .ok m) (hframes : config.frameCount ≤ maxEntryFrame + 1)
    (hs : Reachable HasRoom (ofMachine m) s) {c : Call} (hc : c ∈ s.calls)
    (hpurpose : c.purpose ≠ .spawn) (hload : ∀ mode, Task.load mode ∉ c.tasks) {err : VmError}
    {copied : Option Copy} {m' : Machine}
    (hstep : c.step s.machine = (.finished (.failed err copied), m')) :
    ∃ m₁ page kind, c.Ready s.machine m₁ ∧ c.wanted? = some (page, kind) ∧
      (∀ q page', m₁.Registered q →
        m'.Registered q ∧ m'.content? q page' = m₁.content? q page') ∧
      (Action.Denied c.process page err ∧ m' = m₁ ∨
        (∃ n, err = .swap (.full n)) ∧ m₁.Swept m' ∨
        ((∃ e, err = .load e) ∨ ∃ n, err = .swap (.badFrameSize n)) ∧
          ∃ f, m₁.Withdrew m' c.process page f ∧
            ((∀ q ∈ s.processes, q.image.Answers) →
              ∀ g, m'.ownerOf? g ≠ some (c.process.pid, page))) := by
  obtain ⟨loose, broken, hsound⟩ := hs.sound (sound_boot hboot)
  obtain ⟨i, hci⟩ := List.getElem?_of_mem hc
  obtain ⟨hundo, hrefuse⟩ := hs.steady hboot c hc hpurpose
  obtain ⟨m₁, page, kind, hready, hwanted, hrun⟩ :=
    Call.exists_failed_attempt hpurpose hload hrefuse (stepped hsound hci) hundo hstep
  have hp := (hsound.calls c hc).1
  have hresolution := Action.resolve_spec (hsound.machine.alike hready.alike) hp page kind
  rw [hrun] at hresolution
  refine ⟨m₁, page, kind, hready, hwanted, ?_⟩
  cases hresolution with
  | failed sound keeps idle waiters orderly failure =>
    refine ⟨fun q page' hq => ⟨(keeps.registered q).mpr hq, keeps.content q page' hq⟩, ?_⟩
    cases failure with
    | denied cause => exact Or.inl ⟨cause, rfl⟩
    | unsaved swept => exact Or.inr (Or.inl ⟨⟨_, rfl⟩, swept⟩)
    | @withdrawn _ e f _ absent cause withdrew =>
      have hentry : s.machine.entryOf? c.process page = some e :=
        (hready.alike.entryOf? _ _).symm.trans absent.2.1
      obtain ⟨source, hsource, -⟩ := (hs.marked hboot).exists_source hp hentry
      have hf : f.toNat ≤ maxEntryFrame := by
        have hlt := FrameTable.lt_of_info? withdrew.info
        rw [orderly.size, ← hready.alike.marks.1, hs.size_directory hboot] at hlt
        omega
      refine Or.inr (Or.inr ⟨cause.cause hsource hf, f, withdrew, fun hanswers g ho => ?_⟩)
      -- a frame on record for the page would be one that the page is mapped to
      obtain ⟨j, hj, howner, rfl⟩ := ownerOf?_eq_some.mp ho
      have hloose : g ∉ loose := by
        rw [hsound.answers hanswers]
        exact List.not_mem_nil
      have hmapped := sound.agreement.recorded g j c.process hj howner
        ((keeps.registered _).mpr absent.1) hloose
      rw [withdrew.absent] at hmapped
      contradiction

/-- An executable with one page, which it does not provide. -/
def unprovided : Executable :=
  { Executable.zeroes "missing" 1 with page := fun index _ => .error (.error (.noSuchSection index)) }

/-- A system with one frame, in which a page is asked for that the executable does not provide. -/
def aboutToFail : System := (ofMachine (fresh 1)).run
  [.spawn unprovided [] .demand, .step 0, .request 0 (.fault ⟨0⟩)]

/-- The fault fails, and the frame that was meant for the page is free again. -/
theorem failed_fault_loses_nothing_aboutToFail : ∃ c m₁ m' page f, aboutToFail.calls = [c] ∧
    c.step aboutToFail.machine = (.finished (.failed (.load (.noSuchSection 0)) none), m') ∧
      c.Ready aboutToFail.machine m₁ ∧ m₁.Withdrew m' c.process page f := by
  have hreach : Reachable HasRoom (ofMachine (fresh 1)) aboutToFail :=
    Reachable.start.run (by decide)
  obtain ⟨m', hstep⟩ : ∃ m', (aboutToFail.calls.head (List.cons_ne_nil _ _)).step
      aboutToFail.machine = (.finished (.failed (.load (.noSuchSection 0)) none), m') := ⟨_, rfl⟩
  obtain ⟨m₁, page, kind, hready, -, -, hends⟩ :=
    @failed_fault_loses_nothing aboutToFail ⟨1, 1, true⟩ (.empty none) (fresh 1) rfl (by decide)
      hreach _ (List.head_mem _) nofun
      (fun mode hmem => by cases List.mem_singleton.mp hmem) _ _ _ hstep
  rcases hends with ⟨hdenied, -⟩ | ⟨⟨n, hfull⟩, -⟩ | ⟨-, f, hwithdrew, -⟩
  · rcases hdenied with hexited | hfault | hwrite <;> contradiction
  · contradiction
  · exact ⟨_, m₁, m', page, f, rfl, hstep, hready, hwithdrew⟩

end System

end DemandPaging
