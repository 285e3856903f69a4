import DemandPaging.Proofs.ClockRing
import DemandPaging.Proofs.SingleCalls

/-!
# Accesses

A page that is not resident is brought into a frame and used, and then the frame is let go. What this
does to the pool, the page tables and the counters (`Machine.Accessed`) is the same for every request
that needs one page, and for a page that is only made resident.
-/

namespace DemandPaging

open Machine

/-! ## A page is used -/

namespace FrameTable

variable {O : Type} (t : FrameTable O) (f : FrameNumber) (i : FrameInfo O)

@[simp] theorem free_dropPin : (t.dropPin f i).free = t.free := by
  unfold dropPin
  split <;> rfl

@[simp] theorem clock_dropPin : (t.dropPin f i).clock = t.clock := by
  unfold dropPin
  split <;> rfl

@[simp] theorem directory_dropPin :
    (t.dropPin f i).directory = t.directory.set f { i with pins := i.pins - 1 } := by
  unfold dropPin
  split <;> rfl

end FrameTable

theorem FrameTable.clock_selectVictim {O : Type} {t t' : FrameTable O} {f : FrameNumber}
    (h : t.selectVictim = (some f, t')) :
    t.clock.selectVictim t.directory = (some f, t'.clock, t'.directory) := by
  unfold selectVictim at h
  generalize t.clock.selectVictim t.directory = r at h ⊢
  obtain ⟨victim, c, d⟩ := r
  cases h
  rfl

/-- The hand stops just past the victim. -/
theorem Clock.hand_of_selectVictim {O : Type} {c c' : Clock} {d d' : Directory O} {f : FrameNumber}
    (h : c.selectVictim d = (some f, c', d')) : c'.hand = (f.toNat + 1) % d.size := by
  unfold selectVictim at h
  split at h <;> cases h
  rfl

theorem PageTable.translate?_markAccess (t : PageTable) (page page' : PageNumber) (write : Bool) :
    (t.markAccess page write).translate? page' = t.translate? page' := by
  rcases t.valid_cases page with ⟨e, he, hvalid⟩ | hinvalid
  · rw [markAccess_of_valid he hvalid, translate?, translate?, get?_setEntry]
    by_cases hpage : page' = page
    · rw [if_pos hpage, he, hpage, he, Option.map_some, Option.bind_some, Option.bind_some,
        e.frame?_accessed]
    · rw [if_neg hpage]
  · rw [markAccess_of_invalid hinvalid]

/-- Marking a page as accessed leaves every page where it is. -/
theorem Machine.translate?_marked (m : Machine) (p q : UserProcess) (page page' : PageNumber)
    (write : Bool) : ((m.withTable p ((m.table p).markAccess page write)).table q).translate? page' =
      (m.table q).translate? page' := by
  by_cases hlt : p.table.index < m.tables.size
  · rw [table_withTable hlt]
    split
    · next hindex => rw [PageTable.translate?_markAccess, table, table, hindex]
    · rfl
  · rw [withTable, Array.setIfInBounds_eq_of_size_le (Nat.not_lt.mp hlt)]

namespace Action

variable {m m' : Machine} {p : UserProcess} {r : Request} {f : FrameNumber} {u : Unit} {a : Answer}

theorem of_run_unpin (h : (unpin f).run m = .ok u m') : ∃ i, m.frameInfo? f = some i ∧ i.pins ≠ 0 ∧
    m' = m.withFrames (m.kernel.frames.dropPin f i) := by
  obtain ⟨t, ht, rfl⟩ := run_onFrames_eq_ok.mp h
  have hsome : ∃ i, m.kernel.frames.info? f = some i ∧ i.isPinned = true := by
    unfold FrameTable.unpin at ht
    split at ht
    · cases ht
    · next i hi =>
      split at ht
      · next hpinned => exact ⟨i, hi, hpinned⟩
      · cases ht
  obtain ⟨i, hi, hpinned⟩ := hsome
  have hpins : i.pins ≠ 0 := by simpa [FrameInfo.isPinned, Nat.pos_iff_ne_zero] using hpinned
  obtain ⟨woke, hunpin⟩ := FrameTable.unpin_of_pinned hi hpins
  rw [hunpin] at ht
  cases ht
  exact ⟨i, hi, hpins, rfl⟩

/-- A page that is used stays where it is. -/
theorem of_run_visit (h : (r.visit p f).run m = .ok a m') : ∃ i b, m.frameInfo? f = some i ∧
    m'.kernel = { m.kernel with frames := m.kernel.frames.dropPin f i, memory := b } ∧
    m'.tables.size = m.tables.size ∧
    ∀ (q : UserProcess) (page : PageNumber),
      (m'.table q).translate? page = (m.table q).translate? page := by
  simp only [Request.visit, run_bind_eq_ok] at h
  obtain ⟨a', m₁, htransfer, u, m₂, hunpin, h⟩ := h
  cases h
  obtain ⟨i, hi, -, rfl⟩ := of_run_unpin hunpin
  have hcopied : ∃ b, m₁.kernel = { m.kernel with memory := b } ∧ m₁.tables.size = m.tables.size ∧
      ∀ (q : UserProcess) (page : PageNumber),
        (m₁.table q).translate? page = (m.table q).translate? page := by
    unfold Request.transfer at htransfer
    split at htransfer
    · cases htransfer
      exact ⟨_, rfl, rfl, fun _ _ => rfl⟩
    · next c piece hcopy =>
      simp only [run_bind_eq_ok] at htransfer
      obtain ⟨c', m₃, htransfer, hpure⟩ := htransfer
      cases hpure
      obtain ⟨-, -, m₄, rfl, hbytes⟩ := of_run_transfer htransfer
      have hkernel : ∃ b, m₄.kernel = { m.kernel with memory := b } ∧ m₄.tables = m.tables := by
        obtain ⟨-, rfl⟩ | ⟨-, b, -, rfl⟩ := hbytes
        · exact ⟨_, rfl, rfl⟩
        · exact ⟨b, rfl, rfl⟩
      obtain ⟨b, hkernel, htables⟩ := hkernel
      have htable : ∀ q, m₄.table q = m.table q := fun q => by rw [table, table, htables]
      refine ⟨b, hkernel, by simp [withTable, htables], fun q page => ?_⟩
      rw [← htable p, translate?_marked, htable]
  obtain ⟨b, hkernel, hsize, htable⟩ := hcopied
  refine ⟨i, b, ?_, ?_, hsize, htable⟩
  · rw [← hi, frameInfo?, frameInfo?, hkernel]
  · rw [kernel_withFrames, hkernel]

end Action

namespace Machine

variable {m m' m₁ : Machine} {p : UserProcess} {page : PageNumber} {f : FrameNumber}

/-- A page that was not resident was brought into the frame `f` and used. -/
structure Accessed (m m' : Machine) (p : UserProcess) (page : PageNumber) (f : FrameNumber) : Prop where
  pool : PoolPlaced m.kernel.frames m'.kernel.frames f
    ⟨some p.pid, page, 0, m.kernel.config.referenceOnInstall⟩
  tables : m.TablesPlaced m' p page f
  config : m'.kernel.config = m.kernel.config
  sizes : m'.tables.size = m.tables.size
  faults : m'.kernel.stats.faults = m.kernel.stats.faults + 1
  evictions : m'.kernel.stats.evictions =
    m.kernel.stats.evictions + (if m.kernel.frames.free.stack = [] then 1 else 0)

/-- The record of the frame may change afterwards. -/
theorem PoolPlaced.then_set {t t₁ t' : FrameTable ProcessId} {i j : FrameInfo ProcessId}
    (h : PoolPlaced t t₁ f i) (hfree : t'.free = t₁.free) (hclock : t'.clock = t₁.clock)
    (hdirectory : t'.directory = t₁.directory.set f j) : PoolPlaced t t' f j := by
  have hset : ∀ d : Directory ProcessId, (d.set f i).set f j = d.set f j := fun d => by
    simp only [Directory.set, Array.setIfInBounds_setIfInBounds]
  cases h with
  | free stack stack' directory clock =>
    refine .free stack (hfree ▸ stack') ?_ (hclock.trans clock)
    rw [hdirectory, directory, hset]
  | evicted stack stack' victim directory clock =>
    refine .evicted stack (hfree ▸ stack') victim ?_ (hclock.trans clock)
    rw [hdirectory, directory, hset]

/-- The frame has the record that it was given. -/
theorem PoolPlaced.info {t t' : FrameTable ProcessId} {i j : FrameInfo ProcessId}
    (h : PoolPlaced t t' f j) (hi : t'.info? f = some i) : i = j := by
  have hget : ∀ d : Directory ProcessId, (d.set f j).get? f = some i → i = j := fun d h => by
    rw [Directory.get?_set, if_pos rfl, Option.map_eq_some_iff] at h
    obtain ⟨-, -, hj⟩ := h
    exact hj.symm
  cases h with
  | free stack stack' directory clock => exact hget _ (by rwa [← directory])
  | evicted stack stack' victim directory clock => exact hget _ (by rwa [← directory])

theorem Placed.config (h : m.Placed m' p page f) :
    m'.kernel.config = m.kernel.config ∧ m'.tables.size = m.tables.size := by
  obtain ⟨m₀, m₁, e, i, content, hkernel, htables, hgranted, hinstalled⟩ := h
  obtain ⟨v, -, htables'⟩ := hinstalled.tables
  rw [hinstalled.kernel, htables', ← hkernel, ← htables]
  cases hgranted with
  | free stack eq =>
    subst eq
    exact ⟨rfl, by simp [withEntry, withTable, handedOut]⟩
  | evicted stack victim vacated eq =>
    subst eq
    simp only [handedOut, kernel_noted, kernel_withFrames, withEntry, withTable, tables_noted,
      tables_withFrames, Array.size_setIfInBounds]
    rw [vacated.kernel, vacated.tables]
    exact ⟨rfl, by simp [withEntry, withTable]⟩

/-- A page that was brought in is used, in a way that leaves every page where it is, and its frame is let
go. -/
theorem Placed.accessed (h : m.Placed m₁ p page f) {i : FrameInfo ProcessId} {b : PhysicalMemory}
    (hi : m₁.frameInfo? f = some i)
    (hkernel : m'.kernel = { m₁.kernel with
      frames := m₁.kernel.frames.dropPin f i, memory := b })
    (hsize : m'.tables.size = m₁.tables.size)
    (htable : ∀ (q : UserProcess) (page : PageNumber),
      (m'.table q).translate? page = (m₁.table q).translate? page) : m.Accessed m' p page f := by
  have hpool := h.pool
  obtain ⟨hfaults, hevictions⟩ := h.stats
  obtain ⟨hconfig, hsize₁⟩ := h.config
  cases hpool.info hi
  refine ⟨hpool.then_set ?_ ?_ ?_, ?_, ?_, hsize.trans hsize₁, ?_, ?_⟩
  · rw [hkernel]
    exact FrameTable.free_dropPin ..
  · rw [hkernel]
    exact FrameTable.clock_dropPin ..
  · rw [hkernel]
    exact FrameTable.directory_dropPin ..
  · cases h.tables with
    | free stack table =>
      exact .free stack fun q page' => (htable q page').trans (table q page')
    | evicted stack info owner held process mapped table =>
      exact .evicted stack info owner held process mapped fun q page' =>
        (htable q page').trans (table q page')
  · rw [hkernel]
    exact hconfig
  · rw [hkernel]
    exact hfaults
  · rw [hkernel]
    exact hevictions

/-- **A request for a page that is not resident** brings the page in and uses it. -/
theorem accessed_of_run {r : Request} {a : Answer} (hr : r.Single p page)
    (habsent : (m.table p).translate? page = none)
    (hrun : (r.toCall p).run m = (.finished (.returned a), m')) : ∃ f, m.Accessed m' p page f := by
  obtain ⟨f, m₁, hresolve, hvisit⟩ := Call.of_run_single hr hrun
  obtain ⟨-, hhit | ⟨-, hplaced⟩⟩ := Action.of_run_resolve hresolve
  · cases habsent.symm.trans hhit.1
  · obtain ⟨i, b, hi, hkernel, hsize, htable⟩ := Action.of_run_visit hvisit
    exact ⟨f, hplaced.accessed hi hkernel hsize htable⟩

end Machine

end DemandPaging
