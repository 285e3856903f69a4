import DemandPaging.Kernel.Teardown
import DemandPaging.Proofs.Eviction
import DemandPaging.Proofs.WaitingRoom

/-!
# Processes come and go

A process that is torn down leaves the register first, and then gives its frames and its copies
back. A process that is made gets the next identity and a page table without frames.
-/

namespace DemandPaging

namespace Machine

variable {m : Machine} {l : Ledger} {p q : UserProcess} {f : FrameNumber}
  {i : FrameInfo ProcessId} {page : PageNumber} {e : PageEntry}

/-! ## A process is removed -/

/-- The machine without the process `pid` in its register. -/
def without (m : Machine) (pid : ProcessId) : Machine :=
  { m with kernel := { m.kernel with registry := m.kernel.registry.erase pid } }

theorem process?_without (m : Machine) (pid k : ProcessId) :
    (m.without pid).process? k = if k = pid then none else m.process? k :=
  Registry.find?_erase ..

/-- A process that is taken from the register is not there any more. -/
theorem process?_without_self (m : Machine) (pid : ProcessId) :
    (m.without pid).process? pid = none := by
  rw [process?_without, if_pos rfl]

/-- A process that is still registered was registered before, and is not the one that went. -/
theorem process?_of_without {pid k : ProcessId} (h : (m.without pid).process? k = some p) :
    k ≠ pid ∧ m.process? k = some p := by
  rw [process?_without] at h
  by_cases hk : k = pid
  · rw [if_pos hk] at h
    contradiction
  · rw [if_neg hk] at h
    exact ⟨hk, h⟩

/-- A process that is not registered any more counts as broken, until its frames are given back. -/
theorem Sound.without (h : m.Sound l) (hp : p ∈ l.processes) :
    (m.without p.pid).Sound { l with broken := p.pid :: l.broken } := by
  have hr : ∀ q, (m.without p.pid).Registered q → m.Registered q :=
    fun q hq => (process?_of_without hq).2
  refine ⟨h.pool, h.size_memory, ⟨h.census.few, h.census.identity, h.census.size_tables,
    h.census.nextPid, ?_, Registry.nodup_keys_erase h.census.nodup_keys _, h.census.fits⟩, ?_,
    ⟨?_, ?_, ?_, h.agreement.pins, h.agreement.exists_pinned, ?_⟩, ?_⟩
  · exact fun k q hq => h.census.registered k q (process?_of_without hq).2
  · intro k hk
    cases List.mem_cons.mp hk with
    | inl heq => exact ⟨p, hp, heq.symm⟩
    | inr hmem => exact h.broken k hmem
  · exact fun q page f hq => h.agreement.mapped q page f (hr q hq)
  · exact fun f k q hk ho hq => h.agreement.recorded f k q hk ho (hr q hq)
  · intro f k pid hk ho
    rw [process?_without]
    by_cases hpid : pid = p.pid
    · exact Or.inr (hpid ▸ List.mem_cons_self)
    · rw [if_neg hpid]
      cases h.agreement.owned f k pid hk ho with
      | inl hreg => exact Or.inl hreg
      | inr hbroken => exact Or.inr (List.mem_cons_of_mem _ hbroken)
  · intro f hf
    obtain ⟨hpinned, hmapped⟩ := h.agreement.unmapped f hf
    exact ⟨hpinned, fun q page hq => hmapped q page (hr q hq)⟩
  · exact fun q page e f hq => h.clean q page e f (hr q hq)

/-- Who leaves no frame without a living owner need not count as broken. -/
theorem Sound.mend (h : m.Sound l) {broken : List ProcessId} (hsub : broken ⊆ l.broken)
    (hnone : ∀ pid ∈ l.broken, pid ∉ broken → ∀ f, ¬ m.Orphaned f pid) :
    m.Sound { l with broken } where
  pool := h.pool
  size_memory := h.size_memory
  census := h.census
  broken k hk := h.broken k (hsub hk)
  agreement :=
    { mapped := h.agreement.mapped
      recorded := h.agreement.recorded
      owned := by
        intro f i k hi ho
        by_contra hnot
        obtain ⟨hdead, hout⟩ := not_or.mp hnot
        rw [not_not] at hdead
        have hk := (h.agreement.owned f i k hi ho).resolve_left (not_not.mpr hdead)
        exact hnone k hk hout f ⟨⟨i.page, ownerOf?_eq_some.mpr ⟨i, hi, ho, rfl⟩⟩, hdead⟩
      pins := h.agreement.pins
      exists_pinned := h.agreement.exists_pinned
      unmapped := h.agreement.unmapped }
  clean := h.clean

/-- Another store in which the processes that live have the same copies. -/
theorem Sound.withSwap (h : m.Sound l) {swap : Swap}
    (hsame : ∀ q, m.Registered q → ∀ page,
      (m.withSwap swap).storedContent? q page = m.storedContent? q page) :
    (m.withSwap swap).Sound l where
  pool := h.pool
  size_memory := h.size_memory
  census := h.census.congr rfl rfl rfl
  broken := h.broken
  agreement := ⟨h.agreement.mapped, h.agreement.recorded, h.agreement.owned, h.agreement.pins,
    h.agreement.exists_pinned, h.agreement.unmapped⟩
  clean q page e f hq he hf hd := by
    rw [hsame q hq]
    exact h.clean q page e f hq he hf hd

section Discard

variable {pid : ProcessId} (hdead : m.process? pid = none)
include hdead

/-- The copies of a process that does not live are nobody's. -/
theorem storedContent?_discard (hq : m.Registered q) (page : PageNumber) :
    (m.withSwap (m.kernel.swap.discard pid)).storedContent? q page = m.storedContent? q page := by
  have hne : q.pid ≠ pid := by
    intro heq
    rw [Registered, heq, hdead] at hq
    contradiction
  rw [storedContent?, kernel_withSwap, Swap.copy?_discard, if_neg hne]
  rfl

theorem Sound.discard (h : m.Sound l) : (m.withSwap (m.kernel.swap.discard pid)).Sound l :=
  h.withSwap fun _ hq page => storedContent?_discard hdead hq page

theorem Keeps.discard (pinned : List FrameNumber) :
    Keeps m (m.withSwap (m.kernel.swap.discard pid)) pinned where
  registry _ := rfl
  content q page hq := by
    unfold content?
    rw [storedContent?_discard hdead hq]
    rfl
  owner _ _ k hk := ⟨k, hk, rfl, rfl⟩
  bytes _ _ := rfl

end Discard

/-! ## Frames of a process that is gone -/

/-- The machine after the page table of `p` forgot a page. -/
def forgot (m : Machine) (p : UserProcess) (page : PageNumber) : Machine :=
  m.withTable p ((m.table p).invalidate page).2

/-- The machine after `p` gave back the frame of a page, and one waiter was woken. -/
def returned (m : Machine) (p : UserProcess) (page : PageNumber) (f : FrameNumber) : Machine :=
  let freed := ((m.forgot p page).withFrames (m.kernel.frames.takeBack f)).noted (.released f)
  freed.withFrames freed.kernel.frames.wakeOne.2

section Forgot

variable (he : m.entryOf? p page = some e)
include he

/-- A page that is resident loses its frame. -/
theorem forgot_of_valid (hv : e.valid = true) : m.forgot p page = m.withEntry p page e.evicted := by
  have he' : (m.table p).get? page = some e := he
  simp only [forgot, PageTable.invalidate, he', hv, if_true]
  rfl

theorem forgot_of_invalid (hv : e.valid = false) : m.forgot p page = m := by
  have he' : (m.table p).get? page = some e := he
  simp only [forgot, PageTable.invalidate, he', hv, Bool.false_eq_true, if_false]
  exact withTable_table m p

end Forgot

theorem forgot_of_none (he : m.entryOf? p page = none) : m.forgot p page = m := by
  have he' : (m.table p).get? page = none := he
  simp only [forgot, PageTable.invalidate, he']
  exact withTable_table m p

theorem frameInfo?_returned (hi : m.frameInfo? f = some i) (g : FrameNumber) :
    (m.returned p page f).frameInfo? g = if g = f then some .free else m.frameInfo? g :=
  FrameTable.info?_takeBack hi g

/-- When a frame is given back, the others are as before. -/
theorem frameInfo?_returned_of_mem {owned : List (FrameNumber × PageNumber)}
    {x : FrameNumber × PageNumber} (hi : m.frameInfo? f = some i)
    (hnotin : f ∉ owned.map Prod.fst) (hx : x ∈ owned) :
    (m.returned p page f).frameInfo? x.1 = m.frameInfo? x.1 := by
  have hmem : x.1 ∈ owned.map Prod.fst := List.mem_map_of_mem hx
  have hne : x.1 ≠ f := fun heq => hnotin (heq ▸ hmem)
  rw [frameInfo?_returned hi, if_neg hne]

section Gone

variable (h : m.Sound l) (hp : p ∈ l.processes) (hdead : m.process? p.pid = none)
include h hp hdead

/-- Nobody who lives uses the page table. -/
theorem table_forgot (hq : m.Registered q) : (m.forgot p page).table q = m.table q := by
  refine table_withTable_of_ne h.census hp (h.census.mem hq) ?_ _
  rintro rfl
  rw [Registered, hdead] at hq
  contradiction

theorem Sound.forgot : (m.forgot p page).Sound l :=
  h.sameTables rfl (sizes_withTable (PageTable.size_invalidate ..))
    fun _ hq => table_forgot h hp hdead hq

theorem Keeps.forgot (pinned : List FrameNumber) : Keeps m (m.forgot p page) pinned :=
  .sameTables (show (m.forgot p page).kernel = m.kernel from rfl)
    (fun _ hq => table_forgot h hp hdead hq) pinned

omit hdead in
theorem Orderly.forgot (page : PageNumber) :
    Orderly m (m.forgot p page) l.processes none := by
  cases he : m.entryOf? p page with
  | none => rw [forgot_of_none he]; exact .refl _ _
  | some e =>
    cases hv : e.valid with
    | false => rw [forgot_of_invalid he hv]; exact .refl _ _
    | true =>
      rw [forgot_of_valid he hv]
      refine .withEntry h.census hp he (PageEntry.readOnly_evicted e) (fun hd => ?_)
        (Or.inr (Or.inl (PageEntry.frame?_evicted e)))
      rw [PageEntry.dirty_evicted] at hd
      contradiction

omit hdead in
/-- A page that was forgotten is not resident. -/
theorem translate?_forgot_self (page : PageNumber) :
    ((m.forgot p page).table p).translate? page = none := by
  rw [translate?_table]
  cases he : m.entryOf? p page with
  | none => rw [forgot_of_none he, he, Option.bind_none]
  | some e =>
    cases hv : e.valid with
    | false => rw [forgot_of_invalid he hv, he, Option.bind_some, PageEntry.frame?_eq_none hv]
    | true =>
      rw [forgot_of_valid he hv, entryOf?_withEntry_self h.census hp he, Option.bind_some,
        PageEntry.frame?_evicted]

variable (hi : m.frameInfo? f = some i) (howner : i.owner = some p.pid) (hpins : i.pins = 0)
include hi howner hpins

omit hdead hpins in
/-- The process loses a frame, and the page that lay there is not resident any more. -/
theorem Orderly.returned (hpage : i.page = page) :
    Orderly m (m.returned p page f) l.processes none := by
  have hforgot := Orderly.forgot h hp page
  have hinfo : ∀ g, (m.returned p page f).frameInfo? g =
      if g = f then some .free else m.frameInfo? g := frameInfo?_returned hi
  have hother : ∀ g, g ≠ f → (m.returned p page f).ownerOf? g = m.ownerOf? g := by
    intro g hg
    rw [ownerOf?, hinfo, if_neg hg]
    rfl
  refine ⟨hforgot.registry, FrameTable.size_takeBack .., hforgot.readOnly, hforgot.dirty,
    hforgot.copies, fun g pid page' ho => ?_, fun q hq hdead page' g ht => ?_⟩
  · by_cases hg : g = f
    · rw [ownerOf?, hinfo, if_pos hg] at ho
      contradiction
    · exact Or.inl (hother g hg ▸ ho)
  · replace ht : ((m.forgot p page).table q).translate? page' = some g := ht
    obtain ⟨hold, -⟩ := hforgot.stays q hq hdead page' g ht
    refine ⟨hold, fun ho => ?_⟩
    by_cases hg : g = f
    · -- the directory has one page for the frame, and that page is not resident any more
      rw [hg, ownerOf?_of_info hi, howner, Option.map_some, Option.some.injEq, Prod.mk.injEq] at ho
      obtain rfl := h.census.eq_of_pid hp hq ho.1
      rw [← ho.2, hpage, translate?_forgot_self h hp] at ht
      contradiction
    · rw [hother g hg, ho]

/-- A frame that the dead process owns is mapped by nobody. -/
theorem Sound.returned : (m.returned p page f).Sound l := by
  obtain ⟨hpinned, hloose⟩ := h.not_pinned hi hpins
  have hsound : (m.forgot p page).Sound l := h.forgot hp hdead
  have hunmapped : ∀ (q : UserProcess) (page' : PageNumber), m.Registered q →
      ((m.forgot p page).table q).translate? page' ≠ some f := by
    intro q page' hq hmapped
    have hq' : m.process? q.pid = some q := hq
    have ho := ((hsound.agreement.agreesAt hi).mapped q page' hq hmapped).1
    rw [howner, Option.some.injEq] at ho
    rw [← ho, hdead] at hq'
    contradiction
  have hfreed := hsound.freed (h.pool.takeBack hi (howner ▸ Option.some_ne_none _))
    (FrameTable.size_takeBack ..) (FrameTable.info?_takeBack hi) hpinned hunmapped hloose
    fun _ _ => rfl
  exact (hfreed.alike (.noted _ (.released f))).alike (.wakeOne _)

omit howner in
theorem Keeps.returned : Keeps m (m.returned p page f) l.pinned := by
  have hi' : (m.forgot p page).frameInfo? f = some i := hi
  have hfreed : Keeps (m.forgot p page)
      ((m.forgot p page).withFrames (m.kernel.frames.takeBack f)) l.pinned :=
    .freed (FrameTable.info?_takeBack hi') (h.not_pinned hi hpins).1
  exact (((Keeps.forgot h hp hdead _).trans hfreed).trans (.alike (.noted _ (.released f)) _)).trans
    (.alike (.wakeOne _) _)

end Gone

/-- A frame of the process is pinned, and is its own still. Its release violates an assertion. -/
def Clings (m m' : Machine) (p : UserProcess) (v : Violation) : Prop :=
  ∃ f i, m.frameInfo? f = some i ∧ m'.frameInfo? f = some i ∧ i.owner = some p.pid ∧ i.pins ≠ 0 ∧
    v = .releasedWhilePinned f

/-- How a teardown of `p` can end. -/
inductive Departure (m : Machine) (l : Ledger) (p : UserProcess) :
    EStateM.Result (Stop VmError) Machine Unit → Prop
  /-- All frames of the process are free. -/
  | gone {m' : Machine} (sound : m'.Sound l) (keeps : Keeps (m.without p.pid) m' l.pinned)
      (idle : m'.idle = m.idle) (waiters : ∃ n, m'.waiters = m.waiters.wakeMany n)
      (orderly : Orderly (m.without p.pid) m' l.processes none)
      (unowned : ∀ f page, m'.ownerOf? f ≠ some (p.pid, page))
      (uncopied : ∀ page, m'.kernel.swap.copy? (p.pid, page) = none) :
      Departure m l p (.ok () m')
  /-- A frame of the process is pinned. -/
  | stopped {v : Violation} {m' : Machine}
      (sound : m'.Sound { l with broken := p.pid :: l.broken })
      (keeps : Keeps (m.without p.pid) m' l.pinned) (idle : m'.idle = m.idle)
      (waiters : ∃ n, m'.waiters = m.waiters.wakeMany n)
      (orderly : Orderly (m.without p.pid) m' l.processes none) (clings : m.Clings m' p v) :
      Departure m l p (.error (.violation v) m')

end Machine

namespace Action

open Machine

variable {m : Machine} {l : Ledger} {p : UserProcess}

/-- The first frame is given back, if it is not pinned. -/
theorem run_giveBack_cons (h : m.Sound l) {f : FrameNumber} {i : FrameInfo ProcessId}
    (hi : m.frameInfo? f = some i) (howner : i.owner = some p.pid) (page : PageNumber)
    (owned : List (FrameNumber × PageNumber)) :
    (giveBack p ((f, page) :: owned)).run m =
      if i.pins = 0 then (giveBack p owned).run (m.returned p page f)
      else .error (.violation (.releasedWhilePinned f)) (m.forgot p page) := by
  have howner' : i.owner ≠ none := howner ▸ Option.some_ne_none _
  have hforget : (onTable p fun t => (t.invalidate page).2).run m = .ok () (m.forgot p page) :=
    run_onTable ..
  split
  · next hpins =>
    have hrelease := run_release_of_unpinned (m := m.forgot p page) h.pool hi howner' hpins
    simp only [giveBack, EStateM.run_bind, hforget, hrelease, run_wakeOne]
    rfl
  · next hpins =>
    have hrelease := run_release_of_pinned (m := m.forgot p page) hi howner' hpins
    simp only [giveBack, EStateM.run_bind, hforget, hrelease]

/-- Frames that are given back become free one after the other, until one of them is pinned. -/
theorem giveBack_spec (owned : List (FrameNumber × PageNumber)) (h : m.Sound l)
    (hp : p ∈ l.processes) (hdead : m.process? p.pid = none) (hnodup : (owned.map Prod.fst).Nodup)
    (howned : ∀ x ∈ owned,
      ∃ i, m.frameInfo? x.1 = some i ∧ i.owner = some p.pid ∧ i.page = x.2) :
    ∃ m', m'.Sound l ∧ Keeps m m' l.pinned ∧ Orderly m m' l.processes none ∧ m'.idle = m.idle ∧
      (∃ n, m'.waiters = m.waiters.wakeMany n) ∧
      ((∃ v, m.Clings m' p v ∧ (giveBack p owned).run m = .error (.violation v) m') ∨
        (giveBack p owned).run m = .ok () m' ∧ ∀ f i, m'.frameInfo? f = some i →
          i.owner = none ∨ f ∉ owned.map Prod.fst ∧ m.frameInfo? f = some i) := by
  induction owned generalizing m with
  | nil =>
    exact ⟨m, h, .refl m _, .refl m _, rfl, ⟨0, rfl⟩,
      Or.inr ⟨rfl, fun f i hi => Or.inr ⟨List.not_mem_nil, hi⟩⟩⟩
  | cons x owned ih =>
    obtain ⟨f, page⟩ := x
    obtain ⟨i, hi, howner, hpage⟩ := howned (f, page) List.mem_cons_self
    rw [List.map_cons, List.nodup_cons] at hnodup
    rw [run_giveBack_cons h hi howner]
    by_cases hpins : i.pins = 0
    · have hinfo : ∀ g, (m.returned p page f).frameInfo? g =
          if g = f then some .free else m.frameInfo? g := frameInfo?_returned hi
      have howned' : ∀ x ∈ owned,
          ∃ i, (m.returned p page f).frameInfo? x.1 = some i ∧ i.owner = some p.pid ∧
            i.page = x.2 := by
        intro x hx
        rw [frameInfo?_returned_of_mem hi hnodup.1 hx]
        exact howned x (List.mem_cons_of_mem _ hx)
      obtain ⟨m', hsound', hkeeps', horderly', hidle', ⟨n, hn⟩, hend⟩ :=
        ih (h.returned hp hdead hi howner hpins) hdead hnodup.2 howned'
      rw [if_pos hpins]
      refine ⟨m', hsound', (Keeps.returned h hp hdead hi hpins).trans hkeeps',
        (Orderly.returned h hp hi howner hpage).trans horderly' fun _ hq => h.census.mem hq,
        hidle'.trans (FrameTable.idle_takeBack hi hpins), ⟨n + 1, hn⟩, ?_⟩
      rcases hend with ⟨v, ⟨g, j, hj, hj', ho, hpinned, hv⟩, hrun⟩ | ⟨hrun, hdone⟩
      · rw [hinfo] at hj
        by_cases hg : g = f
        · rw [if_pos hg, Option.some.injEq] at hj
          exact absurd (hj ▸ rfl) hpinned
        · rw [if_neg hg] at hj
          exact Or.inl ⟨v, ⟨g, j, hj, hj', ho, hpinned, hv⟩, hrun⟩
      · refine Or.inr ⟨hrun, fun g j hj => ?_⟩
        rcases hdone g j hj with hnone | ⟨hmem, hsame⟩
        · exact Or.inl hnone
        rw [hinfo] at hsame
        by_cases hg : g = f
        · rw [if_pos hg, Option.some.injEq] at hsame
          exact Or.inl (hsame ▸ rfl)
        · rw [if_neg hg] at hsame
          rw [List.map_cons, List.mem_cons, not_or]
          exact Or.inr ⟨⟨hg, hmem⟩, hsame⟩
    · rw [if_neg hpins]
      exact ⟨m.forgot p page, h.forgot hp hdead, .forgot h hp hdead _, .forgot h hp page, rfl,
        ⟨0, rfl⟩, Or.inl ⟨.releasedWhilePinned f, ⟨f, i, hi, hi, howner, hpins, rfl⟩, rfl⟩⟩

/-- A process that is torn down leaves the register before anything is given back. -/
theorem run_tearDown_eq (m : Machine) (p : UserProcess) : (tearDown p).run m = (do
    giveBack p (m.kernel.frames.ownedBy p.pid)
    setSwap ((← get).kernel.swap.discard p.pid)
    note (.tornDown p.pid (m.kernel.frames.ownedBy p.pid).length) : Action Unit).run
      (m.without p.pid) := rfl

/-- **What a teardown ends with.** The process is gone with all its frames, or a frame of it is
pinned and the teardown stops there. -/
theorem tearDown_spec (h : m.Sound l) (hp : p ∈ l.processes) :
    Departure m l p ((tearDown p).run m) := by
  have hsound₀ : (m.without p.pid).Sound { l with broken := p.pid :: l.broken } := h.without hp
  have hdead := process?_without_self m p.pid
  have hmem : ∀ f page, (f, page) ∈ m.kernel.frames.ownedBy p.pid ↔
      ∃ i, (m.without p.pid).frameInfo? f = some i ∧ i.owner = some p.pid ∧ i.page = page :=
    fun f page => Directory.mem_ownedBy h.pool.size_le
  obtain ⟨m₁, hsound₁, hkeeps₁, horderly₁, hidle₁, hwaiters₁, hend⟩ :=
    giveBack_spec (m.kernel.frames.ownedBy p.pid) hsound₀ hp hdead
      (Directory.nodup_ownedBy h.pool.size_le p.pid) fun x hx => (hmem x.1 x.2).mp hx
  rw [run_tearDown_eq]
  cases hend with
  | inl hstop =>
    obtain ⟨v, hclings, hrun⟩ := hstop
    simp only [EStateM.run_bind, hrun]
    exact .stopped hsound₁ hkeeps₁ hidle₁ hwaiters₁ horderly₁ hclings
  | inr hdone =>
    obtain ⟨hrun, hall⟩ := hdone
    have hnone : ∀ f page, m₁.ownerOf? f ≠ some (p.pid, page) := by
      intro f page howner
      obtain ⟨i, hi, ho, -⟩ := ownerOf?_eq_some.mp howner
      cases hall f i hi with
      | inl hfree =>
        rw [hfree] at ho
        contradiction
      | inr hkept =>
        refine hkept.1 (List.mem_map.mpr ⟨(f, i.page), ?_, rfl⟩)
        exact (hmem f i.page).mpr ⟨i, hkept.2, ho, rfl⟩
    have hdead₁ : m₁.process? p.pid = none := (hkeeps₁.registry _).trans hdead
    have hmended : m₁.Sound l := by
      refine hsound₁.mend (List.subset_cons_self ..) fun pid hpid hnot => ?_
      rw [(List.mem_cons.mp hpid).resolve_right hnot]
      rintro f ⟨⟨page, howner⟩, -⟩
      exact hnone f page howner
    simp only [EStateM.run_bind, hrun, EStateM.run_get, run_setSwap, run_note]
    have hps := fun q (hq : (m.without p.pid).Registered q) => hsound₀.census.mem hq
    refine .gone ((hmended.discard hdead₁).alike (.noted _ _))
      ((hkeeps₁.trans (.discard hdead₁ _)).trans (.alike (.noted _ _) _)) hidle₁ hwaiters₁
      ((horderly₁.trans (.discard m₁ p.pid _) hps).trans (.alike (.noted _ _) _) hps)
      hnone fun page => ?_
    exact (Swap.copy?_discard ..).trans (if_pos rfl)

end Action

namespace Machine

variable {m : Machine} {l : Ledger} {p q : UserProcess} {f : FrameNumber}
  {i : FrameInfo ProcessId}

/-! ## A process is registered -/

/-- The machine with one more process and its page table. -/
def joined (m : Machine) (p : UserProcess) (t : PageTable) : Machine :=
  { m with
    tables := m.tables.push t
    kernel := { m.kernel with
      registry := m.kernel.registry.insert p
      nextPid := m.kernel.nextPid.next } }

/-- The new process lives, and the others live as before. -/
theorem process?_joined (m : Machine) (p : UserProcess) (t : PageTable) (pid : ProcessId) :
    (m.joined p t).process? pid = if pid = p.pid then some p else m.process? pid :=
  Registry.find?_insert ..

/-- A process that lives is the new one or lived before. -/
theorem registered_joined {t : PageTable} (hq : (m.joined p t).Registered q) :
    q = p ∨ q.pid ≠ p.pid ∧ m.Registered q := by
  rw [Registered, process?_joined] at hq
  by_cases hqp : q.pid = p.pid
  · rw [if_pos hqp, Option.some.injEq] at hq
    exact Or.inl hq.symm
  · rw [if_neg hqp] at hq
    exact Or.inr ⟨hqp, hq⟩

theorem table_joined_self {t : PageTable} (hindex : p.table.index = m.tables.size) :
    (m.joined p t).table p = t := by
  rw [table, joined, hindex, Array.getElem?_push_size, Option.getD_some]

section Joined

variable {t : PageTable} (h : m.Sound l)
include h

/-- A process that was made before has its page table still. -/
theorem table_joined_of_mem (hq : q ∈ l.processes) : (m.joined p t).table q = m.table q := by
  have hlt := h.census.index_lt hq
  rw [table, joined, Array.getElem?_push_lt hlt, table, Array.getElem?_eq_getElem hlt]

theorem table_joined (hq : m.Registered q) : (m.joined p t).table q = m.table q :=
  table_joined_of_mem h (h.census.mem hq)

theorem content?_joined (hq : m.Registered q) (page : PageNumber) :
    (m.joined p t).content? q page = m.content? q page := by
  simp only [content?, entryOf?, table_joined h hq]
  rfl

variable (hroom : l.processes.length + 1 < wordBound) (hpid : p.pid = m.kernel.nextPid)
  (hindex : p.table.index = m.tables.size)
include hroom hpid

/-- No frame has ever belonged to the new process. -/
theorem Sound.owner_ne_nextPid (hi : m.frameInfo? f = some i) : i.owner ≠ some p.pid := by
  intro ho
  cases h.agreement.owned f i p.pid hi ho with
  | inl hreg =>
    rw [hpid] at hreg
    exact hreg (h.census.process?_nextPid hroom)
  | inr hbroken =>
    obtain ⟨q, hmem, hqp⟩ := h.broken _ hbroken
    exact h.census.pid_ne_nextPid hroom hmem (hqp.trans hpid)

include hindex

variable (hfits : t.size ≤ wordBound)
include hfits

theorem Census.joined : (m.joined p t).Census (l.processes ++ [p]) where
  few := by
    rw [List.length_append]
    exact hroom
  identity k q hq := by
    by_cases hk : k < l.processes.length
    · rw [List.getElem?_append_left hk] at hq
      exact h.census.identity k q hq
    · rw [List.getElem?_append_right (Nat.not_lt.mp hk), List.getElem?_singleton] at hq
      split at hq
      · next hzero =>
        have hkl : k = l.processes.length := by omega
        rw [Option.some.injEq] at hq
        rw [← hq, hkl, hpid, hindex, h.census.nextPid, h.census.size_tables]
        exact ⟨rfl, rfl⟩
      · contradiction
  size_tables := by
    rw [Machine.joined, Array.size_push, List.length_append, h.census.size_tables]
    rfl
  nextPid := by
    change m.kernel.nextPid.next = _
    rw [h.census.nextPid, List.length_append]
    exact congrArg ProcessId.mk (UInt32.ofNat_add _ _).symm
  registered pid q hq := by
    rw [process?_joined] at hq
    by_cases hk : pid = p.pid
    · rw [if_pos hk, Option.some.injEq] at hq
      exact ⟨hq ▸ hk.symm, List.mem_append_right _ (hq ▸ List.mem_singleton_self p)⟩
    · rw [if_neg hk] at hq
      obtain ⟨hqp, hmem⟩ := h.census.registered pid q hq
      exact ⟨hqp, List.mem_append_left _ hmem⟩
  nodup_keys := by
    have hnobody : m.process? p.pid = none := by
      rw [hpid]
      exact h.census.process?_nextPid hroom
    exact Registry.nodup_keys_insert h.census.nodup_keys (Registry.not_mem_keys hnobody)
  fits n hn := by
    rw [sizes, Machine.joined, Array.map_push, Array.mem_push] at hn
    exact hn.elim (h.census.fits n) (· ▸ hfits)

variable (habsent : ∀ page e, t.get? page = some e → e.frame? = none)
include habsent

omit h hroom hpid hfits in
/-- A new process has no page in any frame. -/
theorem translate?_joined_self (page : PageNumber) :
    ((m.joined p t).table p).translate? page = none := by
  rw [table_joined_self hindex, PageTable.translate?]
  cases he : t.get? page with
  | none => rfl
  | some e => exact habsent page e he

theorem Sound.joined : (m.joined p t).Sound { l with processes := l.processes ++ [p] } := by
  have hself := translate?_joined_self hindex habsent
  refine ⟨h.pool, h.size_memory, .joined h hroom hpid hindex hfits, ?_,
    ⟨?_, ?_, ?_, h.agreement.pins, h.agreement.exists_pinned, ?_⟩, ?_⟩
  · intro pid hb
    obtain ⟨q, hq, hqp⟩ := h.broken pid hb
    exact ⟨q, List.mem_append_left _ hq, hqp⟩
  · intro q page g hq ht
    cases registered_joined hq with
    | inl heq =>
      rw [heq, hself] at ht
      contradiction
    | inr hold =>
      rw [table_joined h hold.2] at ht
      exact h.agreement.mapped q page g hold.2 ht
  · intro g k q hk ho hq hloose
    cases registered_joined hq with
    | inl heq => exact absurd (heq ▸ ho) (h.owner_ne_nextPid hroom hpid hk)
    | inr hold =>
      rw [table_joined h hold.2]
      exact h.agreement.recorded g k q hk ho hold.2 hloose
  · intro g k pid hk ho
    rw [process?_joined]
    split
    · exact Or.inl (Option.some_ne_none p)
    · exact h.agreement.owned g k pid hk ho
  · intro g hg
    refine ⟨(h.agreement.unmapped g hg).1, fun q page hq => ?_⟩
    cases registered_joined hq with
    | inl heq =>
      rw [heq, hself]
      exact (Option.some_ne_none g).symm
    | inr hold =>
      rw [table_joined h hold.2]
      exact (h.agreement.unmapped g hg).2 q page hold.2
  · intro q page e g hq he hg hd
    cases registered_joined hq with
    | inl heq =>
      have ht := hself page
      rw [heq] at he
      rw [translate?_table, he, Option.bind_some, hg] at ht
      contradiction
    | inr hold =>
      rw [entryOf?, table_joined h hold.2] at he
      exact h.clean q page e g hold.2 he hg hd

end Joined

end Machine

end DemandPaging
