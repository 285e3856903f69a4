import DemandPaging.Proofs.Consistency

/-!
# What the check tells

The check of a machine is exact, and not only for machines that moves lead to. All it takes for
granted is what its parts guarantee by themselves (`Machine.WellFormed`): the free list is in order,
no identity is registered twice, and a page is only mapped to a frame that exists. The records of
the directory may be anything, and so may the register and the page tables.

Each of the nested loops is treated by one equivalence: it finds nothing exactly if all that it
looks at agrees. An early exit loses nothing, as the answer after it is a disagreement.
-/

namespace DemandPaging

open Machine

/-! ## The free list and the records -/

namespace FrameTable

variable {O : Type} {t : FrameTable O}

/-- The free list is in order by itself: its frames exist, none of them is on it twice, and the
marks beside it tell which ones are. -/
structure WellListed (t : FrameTable O) : Prop where
  size_le : t.directory.size ≤ wordBound
  size_listed : t.free.listed.size = t.directory.size
  nodup : t.free.stack.Nodup
  listed : ∀ f, t.free.contains f = true ↔ f ∈ t.free.stack
  exists_info : ∀ f ∈ t.free.stack, ∃ i, t.info? f = some i

/-- The record of a frame agrees with the free list. -/
structure Accounts (t : FrameTable O) (f : FrameNumber) (i : FrameInfo O) : Prop where
  free_iff : i.owner = none ↔ f ∈ t.free.stack
  unpinned : i.owner = none → i.pins = 0

theorem WellListed.accounts_iff (ht : t.WellListed) {f : FrameNumber} {i : FrameInfo O} :
    t.Accounts f i ↔ t.free.contains f = i.isFree ∧ (i.isFree && i.isPinned) = false := by
  have hcontains : t.free.contains f = i.isFree ↔ (i.owner = none ↔ f ∈ t.free.stack) := by
    rw [Bool.eq_iff_iff, ht.listed, FrameInfo.isFree, Option.isNone_iff_eq_none]
    exact ⟨Iff.symm, Iff.symm⟩
  have hpinned : (i.isFree && i.isPinned) = false ↔ (i.owner = none → i.pins = 0) := by
    rw [FrameInfo.isFree, FrameInfo.isPinned, Bool.and_eq_false_imp, Option.isNone_iff_eq_none,
      decide_eq_false_iff_not, Nat.not_lt, Nat.le_zero]
  rw [hcontains, hpinned]
  exact ⟨fun h => ⟨h.free_iff, h.unpinned⟩, fun h => ⟨h.1, h.2⟩⟩

theorem WellListed.firstDisagreement_eq_none_iff (ht : t.WellListed)
    {fs : List (FrameNumber × FrameInfo O)} :
    firstDisagreement t.free fs = none ↔ ∀ x ∈ fs, t.Accounts x.1 x.2 := by
  induction fs with
  | nil => exact ⟨fun _ => List.forall_mem_nil _, fun _ => rfl⟩
  | cons x fs ih =>
    obtain ⟨f, i⟩ := x
    have hhead : firstDisagreement t.free ((f, i) :: fs) = none ↔
        t.Accounts f i ∧ firstDisagreement t.free fs = none := by
      rw [ht.accounts_iff, firstDisagreement]
      cases i.isFree <;> cases t.free.contains f <;> cases i.isPinned <;> simp
    rw [hhead, ih, List.forall_mem_cons]

/-- What the records show is a frame. -/
theorem firstDisagreement_ne_mismatch (free : FreeList) (fs : List (FrameNumber × FrameInfo O))
    (listed ownerless : Nat) :
    firstDisagreement free fs ≠ some (.freeCountMismatch listed ownerless) := by
  fun_induction firstDisagreement free fs with
  | case1 => exact nofun
  | case2 => exact nofun
  | case3 => exact nofun
  | case4 => exact nofun
  | case5 _ _ _ _ _ _ ih => exact ih

/-- If the free list is in order, the pool is valid exactly if every record agrees with the list. -/
theorem WellListed.valid_iff (ht : t.WellListed) :
    t.Valid ↔ ∀ f i, t.info? f = some i → t.Accounts f i := by
  constructor
  · intro hv f i hi
    refine ⟨?_, hv.unpinned f i hi⟩
    rw [← hv.listed, hv.contains_eq_isFree hi, FrameInfo.isFree, Option.isNone_iff_eq_none]
  · intro hall
    refine ⟨ht.size_le, ht.size_listed, ht.nodup, fun f => ⟨fun hmem => ?_, ?_⟩, ht.listed,
      fun f i hi => (hall f i hi).unpinned⟩
    · obtain ⟨i, hi⟩ := ht.exists_info f hmem
      exact ⟨i, hi, (hall f i hi).free_iff.mpr hmem⟩
    · rintro ⟨i, hi, hnone⟩
      exact (hall f i hi).free_iff.mp hnone

/-- The check of the frame table passes exactly on a valid pool, and where it does not, a single
frame is to blame: the count at its end finds nothing that the records did not show. -/
theorem WellListed.check_cases (ht : t.WellListed) :
    (t.Valid ∧ t.check = .ok ()) ∨ (¬ t.Valid ∧ ∃ e, t.check = .error e ∧
      ∀ listed ownerless, e ≠ .freeCountMismatch listed ownerless) := by
  have hrecords : firstDisagreement t.free t.directory.toList = none ↔ t.Valid := by
    rw [ht.firstDisagreement_eq_none_iff, ht.valid_iff]
    simp only [Prod.forall, Directory.mem_toList ht.size_le, info?]
  cases hfirst : firstDisagreement t.free t.directory.toList with
  | none =>
    have hvalid := hrecords.mp hfirst
    exact Or.inl ⟨hvalid, hvalid.check⟩
  | some e =>
    have hinvalid : ¬ t.Valid := fun hv => by
      rw [hrecords.mpr hv] at hfirst
      contradiction
    refine Or.inr ⟨hinvalid, e, by simp only [FrameTable.check, hfirst], ?_⟩
    rintro listed ownerless rfl
    exact firstDisagreement_ne_mismatch _ _ _ _ hfirst

end FrameTable

/-! ## The page tables and the register -/

/-- Listed is who is found, if no identity is listed twice. -/
theorem Registry.mem_toList_iff {r : Registry} (h : r.keys.Nodup) {pid : ProcessId}
    {p : UserProcess} : (pid, p) ∈ r.toList ↔ r.find? pid = some p := by
  refine ⟨find?_of_mem h, fun hfind => ?_⟩
  obtain ⟨before, behind, hlist, -⟩ := List.lookup_eq_some_iff.mp hfind
  rw [toList, hlist]
  exact List.mem_append_right _ List.mem_cons_self

namespace Machine

variable {m : Machine}

/-- What the parts of a machine guarantee by themselves, in agreement with each other or not. -/
structure WellFormed (m : Machine) : Prop where
  frames : m.kernel.frames.WellListed
  nodup_keys : m.kernel.registry.keys.Nodup
  size_table_le : ∀ pid p, m.process? pid = some p → (m.table p).size ≤ wordBound
  exists_info : ∀ pid p page f, m.process? pid = some p →
    (m.table p).translate? page = some f → ∃ i, m.frameInfo? f = some i

/-- The record of a frame is that of a page that is mapped to it: the owner is registered. -/
def RecordHolds (m : Machine) (f : FrameNumber) (i : FrameInfo ProcessId) : Prop :=
  ∀ pid, i.owner = some pid →
    ∃ p, m.process? pid = some p ∧ (m.table p).translate? i.page = some f

/-- A mapping to a frame is on record with that frame. -/
def MappingHolds (m : Machine) (pid : ProcessId) (page : PageNumber) (f : FrameNumber) : Prop :=
  ∃ i, m.frameInfo? f = some i ∧ i.owner = some pid ∧ i.page = page

/-- The parts of the machine agree with each other: free list with directory, and directory with
page tables in both directions. -/
structure Consistent (m : Machine) : Prop where
  free_iff : ∀ f i, m.frameInfo? f = some i → (i.owner = none ↔ f ∈ m.kernel.frames.free.stack)
  unpinned : ∀ f i, m.frameInfo? f = some i → i.owner = none → i.pins = 0
  recorded : ∀ f i, m.frameInfo? f = some i → m.RecordHolds f i
  mapped : ∀ pid p page f, m.process? pid = some p → (m.table p).translate? page = some f →
    m.MappingHolds pid page f

theorem firstStaleRecord_eq_none_iff {fs : List (FrameNumber × FrameInfo ProcessId)} :
    m.firstStaleRecord fs = none ↔ ∀ x ∈ fs, m.RecordHolds x.1 x.2 := by
  induction fs with
  | nil => exact ⟨fun _ => List.forall_mem_nil _, fun _ => rfl⟩
  | cons x fs ih =>
    obtain ⟨f, i⟩ := x
    have hhead : m.firstStaleRecord ((f, i) :: fs) = none ↔
        m.RecordHolds f i ∧ m.firstStaleRecord fs = none := by
      rw [firstStaleRecord]
      cases ho : i.owner with
      | none => simp [RecordHolds, ho]
      | some pid =>
        cases hp : m.process? pid with
        | none => simp [RecordHolds, ho, hp]
        | some p =>
          by_cases hmapped : (m.table p).translate? i.page = some f <;>
            simp [RecordHolds, ho, hp, hmapped]
    rw [hhead, ih, List.forall_mem_cons]

theorem firstStaleMappingOf_spec {pid : ProcessId} {mappings : List (PageNumber × FrameNumber)}
    (hframes : ∀ x ∈ mappings, ∃ i, m.frameInfo? x.2 = some i) :
    ∃ answer, m.firstStaleMappingOf pid mappings = .ok answer ∧
      (answer = none ↔ ∀ x ∈ mappings, m.MappingHolds pid x.1 x.2) := by
  induction mappings with
  | nil => exact ⟨none, rfl, fun _ => List.forall_mem_nil _, fun _ => rfl⟩
  | cons x mappings ih =>
    obtain ⟨page, f⟩ := x
    rw [List.forall_mem_cons] at hframes
    obtain ⟨i, hi⟩ := hframes.1
    obtain ⟨answer, hanswer, hiff⟩ := ih hframes.2
    have hholds : m.MappingHolds pid page f ↔ i.owner = some pid ∧ i.page = page := by
      simp [MappingHolds, hi]
    rw [List.forall_mem_cons, hholds]
    by_cases hagree : i.owner = some pid ∧ i.page = page
    · refine ⟨answer, ?_, by rw [hiff, and_iff_right hagree]⟩
      simp only [firstStaleMappingOf, hi, hagree, and_self, if_true, hanswer]
    · refine ⟨some (.staleMapping f pid page), ?_, ?_⟩
      · simp only [firstStaleMappingOf, hi, hagree, if_false]
      · exact iff_of_false (Option.some_ne_none _) fun h => hagree h.1

theorem firstStaleMapping_spec {ps : List (ProcessId × UserProcess)}
    (hframes : ∀ x ∈ ps, ∀ y ∈ (m.table x.2).resident, ∃ i, m.frameInfo? y.2 = some i) :
    ∃ answer, m.firstStaleMapping ps = .ok answer ∧
      (answer = none ↔
        ∀ x ∈ ps, ∀ y ∈ (m.table x.2).resident, m.MappingHolds x.1 y.1 y.2) := by
  induction ps with
  | nil => exact ⟨none, rfl, fun _ => List.forall_mem_nil _, fun _ => rfl⟩
  | cons x ps ih =>
    obtain ⟨pid, p⟩ := x
    rw [List.forall_mem_cons] at hframes
    obtain ⟨first, hfirst, hfirstiff⟩ := firstStaleMappingOf_spec (m := m) hframes.1
    obtain ⟨answer, hanswer, hiff⟩ := ih hframes.2
    rw [List.forall_mem_cons, ← hfirstiff, ← hiff]
    cases first with
    | none =>
      refine ⟨answer, ?_, (and_iff_right rfl).symm⟩
      simp only [firstStaleMapping, hfirst, bind, Except.bind]
      exact hanswer
    | some e =>
      refine ⟨some e, ?_, iff_of_false (Option.some_ne_none _) fun h => Option.some_ne_none _ h.1⟩
      simp only [firstStaleMapping, hfirst, bind, Except.bind]
      rfl

/-- What the scans of records and mappings find is no fault of the frame table. -/
theorem firstStaleRecord_ne_frameTable (m : Machine)
    (fs : List (FrameNumber × FrameInfo ProcessId)) (e : FrameTableError) :
    m.firstStaleRecord fs ≠ some (.frameTable e) := by
  fun_induction firstStaleRecord m fs with
  | case1 => exact nofun
  | case2 _ _ _ _ ih => exact ih
  | case3 => exact nofun
  | case4 _ _ _ _ _ _ _ _ ih => exact ih
  | case5 => exact nofun

theorem firstStaleMappingOf_ne_frameTable (m : Machine) (pid : ProcessId)
    (mappings : List (PageNumber × FrameNumber)) (e : FrameTableError) :
    m.firstStaleMappingOf pid mappings ≠ .ok (some (.frameTable e)) := by
  fun_induction firstStaleMappingOf m pid mappings with
  | case1 => exact nofun
  | case2 => exact nofun
  | case3 _ _ _ _ _ _ ih => exact ih
  | case4 => exact nofun

theorem firstStaleMapping_ne_frameTable (m : Machine) (ps : List (ProcessId × UserProcess))
    (e : FrameTableError) : m.firstStaleMapping ps ≠ .ok (some (.frameTable e)) := by
  induction ps with
  | nil => exact nofun
  | cons x ps ih =>
    obtain ⟨pid, p⟩ := x
    have hfirst := firstStaleMappingOf_ne_frameTable m pid (m.table p).resident e
    simp only [firstStaleMapping, bind, Except.bind]
    cases hanswer : m.firstStaleMappingOf pid (m.table p).resident with
    | error v => rintro ⟨⟩
    | ok answer =>
      cases answer with
      | none => exact ih
      | some e' =>
        rw [hanswer] at hfirst
        exact hfirst

theorem WellFormed.mem_resident_iff (hm : m.WellFormed) {pid : ProcessId} {p : UserProcess}
    {page : PageNumber} {f : FrameNumber} :
    ((pid, p) ∈ m.kernel.registry.toList ∧ (page, f) ∈ (m.table p).resident) ↔
      m.process? pid = some p ∧ (m.table p).translate? page = some f := by
  rw [Registry.mem_toList_iff hm.nodup_keys]
  exact and_congr_right fun hp => PageTable.mem_resident_iff (hm.size_table_le pid p hp)

/-- The scan of all mappings comes to an end, and finds nothing exactly if all are on record. -/
theorem WellFormed.firstStaleMapping_spec (hm : m.WellFormed) :
    ∃ answer, m.firstStaleMapping m.kernel.registry.toList = .ok answer ∧
      (answer = none ↔ ∀ pid p page f, m.process? pid = some p →
        (m.table p).translate? page = some f → m.MappingHolds pid page f) := by
  obtain ⟨answer, hanswer, hiff⟩ := Machine.firstStaleMapping_spec
    fun x (hx : x ∈ m.kernel.registry.toList) y (hy : y ∈ (m.table x.2).resident) =>
      have ⟨hp, hf⟩ := hm.mem_resident_iff.mp ⟨hx, hy⟩
      hm.exists_info x.1 x.2 y.1 y.2 hp hf
  refine ⟨answer, hanswer, hiff.trans ⟨fun hall pid p page f hp hf => ?_,
    fun hall x hx y hy => ?_⟩⟩
  · obtain ⟨hx, hy⟩ := hm.mem_resident_iff.mpr ⟨hp, hf⟩
    exact hall (pid, p) hx (page, f) hy
  · obtain ⟨hp, hf⟩ := hm.mem_resident_iff.mp ⟨hx, hy⟩
    exact hall x.1 x.2 y.1 y.2 hp hf

/-- A machine is consistent if nothing is left for any of the three scans. -/
theorem WellFormed.consistent_iff (hm : m.WellFormed) :
    m.Consistent ↔ m.kernel.frames.Valid ∧
      m.firstStaleRecord m.kernel.frames.directory.toList = none ∧
      ∀ pid p page f, m.process? pid = some p → (m.table p).translate? page = some f →
        m.MappingHolds pid page f := by
  have hrecords : m.firstStaleRecord m.kernel.frames.directory.toList = none ↔
      ∀ f i, m.frameInfo? f = some i → m.RecordHolds f i := by
    rw [firstStaleRecord_eq_none_iff]
    simp only [Prod.forall, Directory.mem_toList hm.frames.size_le]
    rfl
  rw [hm.frames.valid_iff, hrecords]
  constructor
  · exact fun h => ⟨fun f i hi => ⟨h.free_iff f i hi, h.unpinned f i hi⟩, h.recorded, h.mapped⟩
  · rintro ⟨haccounts, hrecorded, hmapped⟩
    exact ⟨fun f i hi => (haccounts f i hi).free_iff, fun f i hi => (haccounts f i hi).unpinned,
      hrecorded, hmapped⟩

/-- The check of a well-formed machine comes to an end. It finds nothing exactly if the machine is
consistent, and never that frames were only miscounted. -/
theorem WellFormed.check_spec (hm : m.WellFormed) :
    ∃ answer, m.check = .ok answer ∧ (answer = none ↔ m.Consistent) ∧
      ∀ listed ownerless, answer ≠ some (.frameTable (.freeCountMismatch listed ownerless)) := by
  rw [hm.consistent_iff]
  rcases hm.frames.check_cases with ⟨hvalid, hframes⟩ | ⟨hinvalid, e, hframes, hne⟩
  · rw [and_iff_right hvalid]
    cases hrecord : m.firstStaleRecord m.kernel.frames.directory.toList with
    | some e =>
      refine ⟨some e, by simp only [Machine.check, hframes, hrecord], by simp, ?_⟩
      rintro listed ownerless heq
      exact firstStaleRecord_ne_frameTable m _ _ (hrecord.trans heq)
    | none =>
      obtain ⟨answer, hanswer, hiff⟩ := hm.firstStaleMapping_spec
      refine ⟨answer, ?_, ?_, ?_⟩
      · simp only [Machine.check, hframes, hrecord, hanswer]
      · rw [hiff, and_iff_right rfl]
      · rintro listed ownerless rfl
        exact firstStaleMapping_ne_frameTable m _ _ hanswer
  · refine ⟨some (.frameTable e), by simp only [Machine.check, hframes], ?_, ?_⟩
    · exact iff_of_false (Option.some_ne_none _) fun h => hinvalid h.1
    · rintro listed ownerless heq
      cases heq
      exact hne _ _ rfl

/-- In a consistent machine a frame holds one page of one process. -/
theorem Consistent.same_page (h : m.Consistent) {pid pid' : ProcessId} {p p' : UserProcess}
    {page page' : PageNumber} {f : FrameNumber} (hp : m.process? pid = some p)
    (hf : (m.table p).translate? page = some f) (hp' : m.process? pid' = some p')
    (hf' : (m.table p').translate? page' = some f) : pid = pid' ∧ page = page' := by
  obtain ⟨i, hi, ho, hpage⟩ := h.mapped pid p page f hp hf
  obtain ⟨j, hj, ho', hpage'⟩ := h.mapped pid' p' page' f hp' hf'
  obtain rfl : i = j := Option.some.inj (hi.symm.trans hj)
  exact ⟨Option.some.inj (ho.symm.trans ho'), hpage.symm.trans hpage'⟩

/-- Frames with an owner. -/
def ownedCount (m : Machine) : Nat := m.kernel.frames.directory.toList.countP fun x => !x.2.isFree

/-- In a consistent machine every frame is either on the free list or owned. -/
theorem WellFormed.freeCount_add_ownedCount (hm : m.WellFormed) (h : m.Consistent) :
    m.kernel.frames.freeCount + m.ownedCount = m.kernel.frames.frameCount :=
  (hm.consistent_iff.mp h).1.freeCount_add_ownedCount

/-- **The check is exact.** Let the free list of a machine be in order, each identity be registered
at most once, and pages only be mapped to frames that exist; records, register and page tables may
be anything else. Then the check comes to an end, and it passes if and only if a frame has no owner
exactly when it is on the free list, no frame without owner is pinned, every owned frame belongs to
a registered process that maps the recorded page to it, and every mapping of a registered process
leads to a frame that is on record for that process and page. If it passes, no two pages share a
frame, and free and owned frames add up to all frames. A mere miscount is never reported. -/
theorem WellFormed.check_exact (hm : m.WellFormed) :
    (∃ answer, m.check = .ok answer) ∧
    (m.check = .ok none ↔ m.Consistent) ∧
    (m.check = .ok none →
      (∀ pid pid' p p' page page' f, m.process? pid = some p →
        (m.table p).translate? page = some f → m.process? pid' = some p' →
        (m.table p').translate? page' = some f → pid = pid' ∧ page = page') ∧
      m.kernel.frames.freeCount + m.ownedCount = m.kernel.frames.frameCount) ∧
    ∀ listed ownerless,
      m.check ≠ .ok (some (.frameTable (.freeCountMismatch listed ownerless))) := by
  obtain ⟨answer, hanswer, hiff, hne⟩ := hm.check_spec
  have hpasses : m.check = .ok none ↔ m.Consistent := by
    rw [hanswer, Except.ok.injEq]
    exact hiff
  refine ⟨⟨answer, hanswer⟩, hpasses, fun hnone => ?_, fun listed ownerless hmismatch => ?_⟩
  · have hconsistent := hpasses.mp hnone
    exact ⟨fun _ _ _ _ _ _ _ hp hf hp' hf' => hconsistent.same_page hp hf hp' hf',
      hm.freeCount_add_ownedCount hconsistent⟩
  · rw [hanswer, Except.ok.injEq] at hmismatch
    exact hne listed ownerless hmismatch

/-- A sound machine is well-formed. -/
theorem Sound.wellFormed {l : Ledger} (h : m.Sound l) : m.WellFormed where
  frames :=
    { size_le := h.pool.size_le
      size_listed := h.pool.size_listed
      nodup := h.pool.nodup
      listed := h.pool.listed
      exists_info := fun f hmem => ((h.pool.mem_stack f).mp hmem).imp fun _ hi => hi.1 }
  nodup_keys := h.census.nodup_keys
  size_table_le _ p _ := h.census.size_table_le p
  exists_info pid p page f hp hf := by
    obtain ⟨rfl, -⟩ := h.census.registered pid p hp
    exact (h.agreement.mapped p page f hp hf).imp fun _ hi => hi.1

/-- The machine with other records for its frames. -/
def withRecords (m : Machine) (d : Directory ProcessId) : Machine :=
  { m with kernel := { m.kernel with frames := { m.kernel.frames with directory := d } } }

/-- Whatever the records are, the machine is well-formed: only their number counts. -/
theorem WellFormed.withRecords (hm : m.WellFormed) {d : Directory ProcessId}
    (hsize : d.size = m.kernel.frames.directory.size) : (m.withRecords d).WellFormed := by
  have hexists : ∀ f, (∃ i, m.frameInfo? f = some i) → ∃ i, d.get? f = some i := by
    rintro f ⟨i, hi⟩
    have hlt := FrameTable.lt_of_info? hi
    rw [← hsize] at hlt
    exact ⟨_, Array.getElem?_eq_getElem hlt⟩
  exact ⟨⟨hsize ▸ hm.frames.size_le, hm.frames.size_listed.trans hsize.symm, hm.frames.nodup,
    hm.frames.listed, fun f hmem => hexists f (hm.frames.exists_info f hmem)⟩, hm.nodup_keys,
    hm.size_table_le, fun pid p page f hp hf => hexists f (hm.exists_info pid p page f hp hf)⟩

/-- A machine where the only frame holds page 0 but is on record for page 5. -/
def misrecorded : Machine :=
  System.holding.machine.withRecords ⟨#[⟨some (.ofNat 1), .ofNat 5, 1, false⟩]⟩

/-- The check finds the wrong record, so the machine is not consistent. -/
theorem check_exact_misrecorded :
    misrecorded.WellFormed ∧ ¬ misrecorded.Consistent ∧
    misrecorded.check = .ok (some (.staleDirectoryEntry (.ofNat 0) (.ofNat 1) (.ofNat 5))) := by
  have hboot : Machine.boot ⟨1, 1, true⟩ (.empty none) = .ok (fresh 1) := rfl
  have hsound := (System.history_holding.answers hboot).machine
  have hm : misrecorded.WellFormed := hsound.wellFormed.withRecords rfl
  have hcheck : misrecorded.check =
      .ok (some (.staleDirectoryEntry (.ofNat 0) (.ofNat 1) (.ofNat 5))) := rfl
  refine ⟨hm, fun hconsistent => ?_, hcheck⟩
  have hpasses := hm.check_exact.2.1.mpr hconsistent
  rw [hcheck] at hpasses
  contradiction

end Machine

end DemandPaging
