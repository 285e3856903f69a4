import DemandPaging.Proofs.Acceptance
import DemandPaging.Proofs.Attributes
import DemandPaging.Proofs.Causes

/-!
# Which frames can be mapped

The pool counts its frames with 32 bits, and an entry of a page table has room for 24. Nothing that
calls do makes a page table complain but this: a page is to be mapped to a frame whose number no entry
can hold (`System.Reachable.frame_of_pageTable`). So page tables never complain if the pool is not larger
than entries can tell.
-/

namespace DemandPaging

open DemandPaging.Action

/-- If a page table is to blame, it is for a frame whose number no entry can hold, in a pool of `frames`
frames. -/
def VmError.OfNumber (frames : Nat) (e : VmError) : Prop :=
  ∀ err, e = .pageTable err → ∃ f : FrameNumber,
    err = .frameTooLarge f ∧ maxEntryFrame < f.toNat ∧ f.toNat < frames

/-- What is wrong with sections is not the fault of a page table. -/
theorem Layout.ofNumber_of_ofSections {sections : List Section} {stackPages frames : Nat}
    {e : VmError} (h : ofSections sections stackPages = .error (.error e)) : e.OfNumber frames := by
  rcases gapless_or_misplaced 0 sections with hgapless | ⟨i, s, hmisplaced⟩
  · obtain ⟨l, -, -, hl⟩ := ofSections_of_gapless hgapless stackPages
    rw [hl, counted] at h
    split at h
    · split at h
      · cases h
      · rintro err rfl
        cases h
    · cases h
  · rw [ofSections_of_misplaced hmisplaced, counted] at h
    split at h
    · rintro err rfl
      cases h
    · cases h

/-- An attempt fails because of a page table only if a frame has too large a number. -/
theorem Action.ofNumber_of_resolve {m m' : Machine} {l : Ledger} (h : m.Sound l) {p : UserProcess}
    (hp : p ∈ l.processes) {page : PageNumber} {kind : AccessKind} {e : VmError}
    (hrun : (resolve p page kind).run m = .error (.error e) m') :
    e.OfNumber m.kernel.frames.directory.size := by
  have hresolution := resolve_spec h hp page kind
  rw [hrun] at hresolution
  cases hresolution with
  | failed sound keeps idle waiters orderly failure =>
    cases failure with
    | denied cause =>
      rcases cause with rfl | rfl | rfl <;> exact fun _ => nofun
    | unsaved swept => exact fun _ => nofun
    | @withdrawn _ e f _ absent cause withdrew =>
      cases cause with
      | unreadable => exact fun _ => nofun
      | unavailable content =>
        rcases UserProcess.cause_of_initialContent content with rfl | ⟨_, rfl⟩ <;>
          exact fun _ => nofun
      | unencodable bits =>
        rintro err ⟨⟩
        have hlt := FrameTable.lt_of_info? withdrew.info
        rw [orderly.size] at hlt
        refine ⟨f, rfl, Nat.not_le.mp fun hle => ?_, hlt⟩
        rw [PageEntry.frameBits?, if_pos hle] at bits
        contradiction

namespace System

variable {s : System} {loose : List FrameNumber} {broken : List ProcessId} {mv : Move} {c : Call}

/-- The pool of the machine has this many frames. -/
def frameCount (s : System) : Nat := s.machine.kernel.frames.directory.size

/-- A step of a call meets a page table that complains only if a frame has too large a number. -/
theorem leads_step (h : s.Sound loose broken) (hc : c ∈ s.calls) :
    c.Leads (VmError.OfNumber s.frameCount) (c.step s.machine).1 := by
  refine Call.leads_step (fun _ _ _ => nofun) (fun _ _ _ => nofun)
    fun m₁ page kind e m' hready _ hrun => ?_
  have hsize : m₁.kernel.frames.directory.size = s.frameCount := hready.alike.marks.1.symm
  rw [← hsize]
  exact ofNumber_of_resolve (h.machine.alike hready.alike) (h.calls c hc).1 hrun

/-- The tasks of a new call have nothing to do with page tables. -/
theorem confined_of_begun {frames : Nat} (hstage : c.stage = .seeking)
    (hrefuse : ∀ e, Task.refuse e ∈ c.tasks → ∃ size, e = .argumentsTooLong size) :
    c.Confined (VmError.OfNumber frames) where
  stage e he := by cases hstage.symm.trans he
  refusals e he := by
    obtain ⟨t, ht, hrefusal⟩ := List.mem_filterMap.mp he
    cases t with
    | refuse e' =>
      cases hrefusal
      obtain ⟨size, rfl⟩ := hrefuse e ht
      exact fun _ => nofun
    | _ => cases hrefusal

theorem confined_after (h : s.Sound loose broken) (hroom : s.HasRoom mv)
    (hcalls : ∀ c ∈ s.calls, c.Confined (VmError.OfNumber s.frameCount)) :
    ∀ c ∈ (s.after mv).calls, c.Confined (VmError.OfNumber (s.after mv).frameCount) := by
  intro c hc
  have hsize : (s.after mv).frameCount = s.frameCount := (turn h hroom).size_directory
  rw [hsize]
  cases descends hc with
  | stays mem => exact hcalls c mem
  | @steps i c₀ _ call step =>
    have hmem := List.mem_of_getElem? call
    exact (hcalls c₀ hmem).of_leads (step ▸ leads_step h hmem)
  | @requested p r mem call =>
    subst call
    refine confined_of_begun (toCall_begins p r).1 fun e he => ?_
    cases r <;> cases List.mem_singleton.mp he
  | spawned purpose stage tasks =>
    refine confined_of_begun stage fun e he => ?_
    rcases tasks _ he with ⟨mode, heq⟩ | ⟨step, heq⟩
    · cases heq
    · cases step with
      | write a bytes => cases heq
      | tooLong size =>
        cases heq
        exact ⟨size, rfl⟩

theorem of_failed_perform {x : Action Unit} {E : VmError → Prop} (hx : Stands (fun _ => True) E x)
    {e : VmError} {copied : Option Copy} (h : (s.perform x).1 = some (.failed e copied)) : E e := by
  have hend := hx s.machine trivial
  unfold perform at h
  cases hrun : x.run s.machine with
  | ok u m =>
    rw [hrun] at h
    cases h
  | error stop m =>
    rw [hrun] at h hend
    cases stop with
    | violation v => cases h
    | error e' =>
      cases h
      exact hend.2

/-- **Page tables complain of numbers only.** In every system that moves lead to from a machine that has
just started, let something fail because of a page table. A page was to be mapped to a frame of the pool
whose number is too large for an entry. -/
theorem Reachable.frame_of_pageTable {config : Config} {swap : Swap} {m : Machine}
    (hboot : Machine.boot config swap = .ok m) (hs : Reachable HasRoom (ofMachine m) s)
    {err : PageTableError} {copied : Option Copy}
    (h : (s.move mv).1 = some (.failed (.pageTable err) copied)) :
    ∃ f : FrameNumber,
      err = .frameTooLarge f ∧ maxEntryFrame < f.toNat ∧ f.toNat < config.frameCount := by
  have hconfined : ∀ c ∈ s.calls, c.Confined (VmError.OfNumber s.frameCount) :=
    hs.invariant_of_sound
      (P := fun t => ∀ c ∈ t.calls, c.Confined (VmError.OfNumber t.frameCount)) (sound_boot hboot)
      (fun _ hc => absurd hc List.not_mem_nil) fun _ _ _ _ ht hroom => confined_after ht hroom
  have hsize : s.frameCount = config.frameCount := hs.size_directory hboot
  rw [hsize] at hconfined
  suffices hnumber : (VmError.pageTable err).OfNumber config.frameCount from hnumber err rfl
  cases mv with
  | spawn image args mode =>
    rcases move_spawn s image args mode with ⟨stop, hrefused, hmove⟩ | ⟨_, _, -, hmove⟩
    · rw [hmove] at h
      cases stop with
      | violation v => cases h
      | error e =>
        cases h
        rcases hrefused with hlayout | ⟨-, -, hargs⟩
        · exact Layout.ofNumber_of_ofSections hlayout
        · cases ArgumentBlock.eq_of_overlong hargs.symm
    · rw [hmove] at h
      cases h
  | request i r =>
    simp only [System.move] at h
    split at h <;> cases h
  | step i =>
    obtain ⟨loose, broken, hsound⟩ := hs.sound (sound_boot hboot)
    cases hc : s.calls[i]? with
    | none =>
      simp only [System.move, stepCall, hc] at h
      cases h
    | some c =>
      have hmem := List.mem_of_getElem? hc
      have hleads := leads_step hsound hmem
      rw [finished_of_outcome hc h, hsize] at hleads
      exact (hconfined c hmem).of_blames hleads
  | drop i =>
    simp only [System.move] at h
    split at h
    · cases h
    · exact of_failed_perform (Machine.bears_true.stands_onFrames _) h
  | release i =>
    simp only [System.move] at h
    split at h
    · cases h
    · exact of_failed_perform (Call.stands_tearDown _) h
  | spoil unreadable => cases h

/-- In a pool that is not too large every frame can be mapped. -/
theorem Reachable.ne_pageTable {config : Config} {swap : Swap} {m : Machine}
    (hboot : Machine.boot config swap = .ok m) (hframes : config.frameCount ≤ maxEntryFrame + 1)
    (hs : Reachable HasRoom (ofMachine m) s) (mv : Move) (err : PageTableError)
    (copied : Option Copy) : (s.move mv).1 ≠ some (.failed (.pageTable err) copied) := by
  intro h
  obtain ⟨f, -, hlarge, hlt⟩ := hs.frame_of_pageTable hboot h
  omega

end System

end DemandPaging
