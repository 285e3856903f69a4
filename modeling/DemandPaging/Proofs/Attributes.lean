import DemandPaging.Proofs.Turns

/-!
# Which pages are read-only

The pages of a section are read-only if the executable says so, and the pages of stack and arguments
never are. The page table of a new process has exactly these bits (`UserProcess.get?_initialTable`),
since the sections of an accepted layout follow one another and every page lies in one at most. No
move changes a read-only bit, so the bits stay those of the executable (`System.Marked`).
-/

namespace DemandPaging

open Machine

/-- Whether a page that comes from `source` is read-only. -/
def Executable.protects (image : Executable) : PageSource → Bool
  | .fromSection index _ => image.readOnly index
  | .zeroFill => false

/-! ## Sections in their order -/

theorem PageRange.contains_iff {r : PageRange} {n : Nat} :
    r.contains n = true ↔ r.first ≤ n ∧ n < r.stop := by
  rw [contains, Bool.and_eq_true, decide_eq_true_eq, decide_eq_true_eq]

namespace Layout

variable {sections : List Section} {ranges : List PageRange} {r : PageRange}
  {index next stop i k n : Nat} {l : Layout} {page : PageNumber}

/-- The ranges follow one another from page `next` on. -/
def Consecutive : Nat → List PageRange → Prop
  | _, [] => True
  | next, r :: rs => r.first = next ∧ Consecutive r.stop rs

/-- Sections are placed one behind the other. -/
theorem consecutive_of_place (h : place sections index next = .ok (ranges, stop)) :
    Consecutive next ranges ∧ ranges.length = sections.length := by
  induction sections generalizing index next ranges with
  | nil =>
    cases h
    exact ⟨trivial, rfl⟩
  | cons s rest ih =>
    obtain ⟨-, -, rs, rfl, hrest⟩ := place_cons_eq_ok.mp h
    obtain ⟨hconsecutive, hlength⟩ := ih hrest
    exact ⟨⟨rfl, hconsecutive⟩, congrArg Nat.succ hlength⟩

/-- None of the ranges begins in front of the first. -/
theorem Consecutive.le_first (h : Consecutive next ranges) (hr : r ∈ ranges) : next ≤ r.first := by
  induction ranges generalizing next with
  | nil => exact absurd hr List.not_mem_nil
  | cons r' rs ih =>
    obtain ⟨hfirst, hrest⟩ := h
    cases List.mem_cons.mp hr with
    | inl heq => exact Nat.le_of_eq (heq ▸ hfirst.symm)
    | inr hmem =>
      have hle := ih hrest hmem
      rw [PageRange.stop] at hle
      omega

/-- The range that holds a page is the first that does. -/
theorem sourceIn_of_contains (h : Consecutive next ranges) (hr : ranges[i]? = some r)
    (hn : r.contains n = true) :
    sourceIn n ranges index = .fromSection (index + i) (n - r.first) := by
  induction ranges generalizing index next i with
  | nil => contradiction
  | cons r' rs ih =>
    cases i with
    | zero =>
      rw [List.getElem?_cons_zero, Option.some.injEq] at hr
      rw [sourceIn, hr, if_pos hn, Nat.add_zero]
    | succ i =>
      rw [List.getElem?_cons_succ] at hr
      have hle := h.2.le_first (List.mem_of_getElem? hr)
      have hfirst := (PageRange.contains_iff.mp hn).1
      have hbehind : ¬ r'.contains n = true := by
        rw [PageRange.contains_iff]
        omega
      rw [sourceIn, if_neg hbehind, ih h.2 hr, Nat.add_right_comm, Nat.add_assoc]

/-- A page that comes from a section lies in the range of the section. -/
theorem exists_of_sourceIn (h : sourceIn n ranges index = .fromSection i k) :
    ∃ j r, i = index + j ∧ ranges[j]? = some r ∧ r.contains n = true := by
  induction ranges generalizing index with
  | nil => contradiction
  | cons r rs ih =>
    rw [sourceIn] at h
    split at h
    · next hn =>
      cases h
      exact ⟨0, r, rfl, rfl, hn⟩
    · obtain ⟨j, r', rfl, hr', hn⟩ := ih h
      exact ⟨j + 1, r', by omega, hr', hn⟩

/-- The source of a page is the range that holds it, and where in the range it lies. -/
theorem sourceIn_eq_fromSection_iff (h : Consecutive next ranges) :
    sourceIn n ranges 0 = .fromSection i k ↔
      ∃ r, ranges[i]? = some r ∧ r.contains n = true ∧ k = n - r.first := by
  constructor
  · intro hsource
    obtain ⟨j, r, rfl, hr, hn⟩ := exists_of_sourceIn hsource
    rw [sourceIn_of_contains h hr hn] at hsource
    cases hsource
    exact ⟨r, by rwa [Nat.zero_add], hn, rfl⟩
  · rintro ⟨r, hr, hn, rfl⟩
    rw [sourceIn_of_contains h hr hn, Nat.zero_add]

/-- The pages of a section are those in its range. -/
theorem mem_sectionPages (hfits : ∀ r ∈ l.ranges, r.stop ≤ wordBound) :
    page ∈ l.sectionPages i ↔ ∃ r, l.ranges[i]? = some r ∧ r.contains page.toNat = true := by
  unfold sectionPages
  cases hr : l.ranges[i]? with
  | none => simp
  | some r =>
    have hstop := hfits r (List.mem_of_getElem? hr)
    simp only [PageRange.pages, List.mem_map, List.mem_range'_1, Option.some.injEq,
      exists_eq_left', PageRange.contains_iff]
    rw [PageRange.stop] at hstop ⊢
    constructor
    · rintro ⟨n, hn, rfl⟩
      rw [PageNumber.toNat_ofNat (by omega)]
      exact hn
    · exact fun hn => ⟨page.toNat, hn, PageNumber.ofNat_toNat page⟩

/-- A page of the address space comes from somewhere. -/
theorem exists_source (l : Layout) (hpage : l.contains page = true) :
    ∃ source, l.source? page = some source := ⟨_, if_pos hpage⟩

/-- An accepted layout has one range for each section, and the ranges follow one another. -/
theorem consecutive_of_sections {stackPages : Nat} (h : ofSections sections stackPages = .ok l) :
    Consecutive 0 l.ranges ∧ l.ranges.length = sections.length :=
  consecutive_of_place (place_of_ofSections h).1

/-- Page numbers can tell all pages of the sections. -/
theorem ranges_fit {stackPages : Nat} (h : ofSections sections stackPages = .ok l) :
    l.codePages ≤ wordBound ∧ ∀ r ∈ l.ranges, r.stop ≤ wordBound := by
  obtain ⟨hplace, hnum, hmax⟩ := place_of_ofSections h
  have hword : maxProcessPages ≤ wordBound := by decide
  have hcode : l.codePages ≤ wordBound := by omega
  exact ⟨hcode, fun r hr => Nat.le_trans ((stop_le_of_place hplace).2 r hr) hcode⟩

end Layout

/-! ## The page table of a new process -/

theorem PageEntry.put_put (e : PageEntry) (f : EntryFlag) (b : Bool) :
    (e.put f b).put f b = e.put f b := by
  refine ext_fields (fun g => ?_) (by simp) (by simp)
  simp only [has_put]
  split <;> rfl

theorem PageEntry.empty_put_false (f : EntryFlag) : empty.put f false = empty := by
  refine ext_fields (fun g => ?_) (by simp) (by simp)
  simp

namespace UserProcess

variable {image : Executable} {l : Layout} {t t' : PageTable} {stackPages : Nat}

/-- The pages that are marked, and no others, become read-only. -/
theorem get?_markReadOnly {pages : List PageNumber} (h : markReadOnly pages t = .ok t')
    (page : PageNumber) : t'.get? page =
      if page ∈ pages then (t.get? page).map (·.put .readOnly true) else t.get? page := by
  induction pages generalizing t with
  | nil =>
    cases h
    rw [if_neg List.not_mem_nil]
  | cons p pages ih =>
    rw [markReadOnly] at h
    cases he : t.get? p with
    | none =>
      simp only [PageTable.setReadOnly, he] at h
      contradiction
    | some e =>
      simp only [PageTable.setReadOnly, he] at h
      rw [ih h, PageTable.get?_setEntry]
      simp only [List.mem_cons]
      by_cases hp : page = p
      · rw [if_pos hp, if_pos (Or.inl hp), hp, he, Option.map_some, Option.map_some,
          PageEntry.put_put, ite_self]
        rfl
      · simp only [hp, if_false, false_or]

/-- The pages that are marked are those of read-only sections. -/
theorem mem_readOnlyPages (h : Layout.ofSections image.sections stackPages = .ok l)
    (page : PageNumber) : page ∈ (readOnlySections image).flatMap l.sectionPages ↔
      image.protects (Layout.sourceIn page.toNat l.ranges 0) = true := by
  obtain ⟨hconsecutive, hlength⟩ := Layout.consecutive_of_sections h
  obtain ⟨-, hfits⟩ := Layout.ranges_fit h
  simp only [readOnlySections, List.mem_flatMap, List.mem_filter, List.mem_range,
    Layout.mem_sectionPages hfits]
  constructor
  · rintro ⟨index, ⟨-, hro⟩, r, hr, hn⟩
    rw [(Layout.sourceIn_eq_fromSection_iff hconsecutive).mpr ⟨r, hr, hn, rfl⟩]
    exact hro
  · intro hprotects
    cases hsource : Layout.sourceIn page.toNat l.ranges 0 with
    | zeroFill =>
      rw [hsource] at hprotects
      contradiction
    | fromSection index k =>
      rw [hsource] at hprotects
      obtain ⟨r, hr, hn, -⟩ := (Layout.sourceIn_eq_fromSection_iff hconsecutive).mp hsource
      have hlt := (List.getElem?_eq_some_iff.mp hr).1
      exact ⟨index, ⟨hlength ▸ hlt, hprotects⟩, r, hr, hn⟩

/-- **The entries of a new process** are empty but for the read-only bit, which is that of the
executable. -/
theorem get?_initialTable (h : Layout.ofSections image.sections stackPages = .ok l)
    (ht : initialTable image l = .ok t) (page : PageNumber) : t.get? page =
      (l.source? page).map fun source => PageEntry.empty.put .readOnly (image.protects source) := by
  rw [get?_markReadOnly ht, PageTable.get?_ofPages, Layout.source?, Layout.contains]
  simp only [mem_readOnlyPages h, decide_eq_true_eq]
  by_cases hlt : page.toNat < l.numPages
  · cases hprotects : image.protects (Layout.sourceIn page.toNat l.ranges 0) with
    | true => simp only [hlt, if_true, Option.map_some, hprotects]
    | false =>
      simp only [hlt, if_true, Option.map_some, hprotects, Bool.false_eq_true, if_false,
        PageEntry.empty_put_false]
  · simp only [hlt, if_false, Option.map_none, ite_self]

end UserProcess

/-! ## All reachable systems -/

namespace System

variable {s s' : System} {loose : List FrameNumber} {broken : List ProcessId} {mv : Move}
  {p : UserProcess} {page : PageNumber} {e : PageEntry}

/-- The read-only bits are those of the executables. -/
def Marked (s : System) : Prop :=
  ∀ p ∈ s.processes, ∀ page,
    s.machine.readOnly? p page = (p.layout.source? page).map p.image.protects

/-- An entry of the page table stands for a page with a source. -/
theorem Marked.exists_source (hm : s.Marked) (hp : p ∈ s.processes)
    (he : s.machine.entryOf? p page = some e) :
    ∃ source, p.layout.source? page = some source ∧ p.image.protects source = e.readOnly := by
  have hro := hm p hp page
  rw [readOnly?, he, Option.map_some, eq_comm, Option.map_eq_some_iff] at hro
  exact hro

/-- A page of the address space has an entry. -/
theorem Marked.exists_entry (hm : s.Marked) (hp : p ∈ s.processes)
    (hpage : p.contains page = true) : ∃ e, s.machine.entryOf? p page = some e := by
  obtain ⟨source, hsource⟩ := p.layout.exists_source hpage
  have hro := hm p hp page
  rw [hsource, Option.map_some, Machine.readOnly?, Option.map_eq_some_iff] at hro
  obtain ⟨e, he, -⟩ := hro
  exact ⟨e, he⟩

/-- A process that is there keeps its read-only bits. -/
theorem Turn.readOnly? (ht : Turn s mv s') (h : s.Sound loose broken) (hp : p ∈ s.processes)
    (page : PageNumber) : s'.machine.readOnly? p page = s.machine.readOnly? p page := by
  cases ht with
  | went processes torn orderly => exact orderly.readOnly p hp page
  | tore processes mem torn orderly cleared => exact orderly.readOnly p hp page
  | joined processes torn machine pid index room layout table =>
    rw [machine, Machine.readOnly?, entryOf?, table_joined_of_mem h.machine hp]
    rfl

theorem Turn.marked (ht : Turn s mv s') (h : s.Sound loose broken) (hm : s.Marked) :
    s'.Marked := by
  have hkept : ∀ p ∈ s.processes, ∀ page,
      s'.machine.readOnly? p page = (p.layout.source? page).map p.image.protects :=
    fun p hp page => (ht.readOnly? h hp page).trans (hm p hp page)
  intro p hp page
  cases ht with
  | went processes torn orderly => exact hkept p (processes ▸ hp) page
  | tore processes mem torn orderly cleared => exact hkept p (processes ▸ hp) page
  | @joined q t stackPages processes torn machine pid index room layout table =>
    rw [processes] at hp
    cases List.mem_append.mp hp with
    | inl hold => exact hkept p hold page
    | inr hnew =>
      rw [List.mem_singleton.mp hnew, machine, Machine.readOnly?, entryOf?,
        table_joined_self index, UserProcess.get?_initialTable layout table, Option.map_map]
      refine congrArg (Option.map · _) (funext fun source => ?_)
      simp

/-- **Read-only bits are those of the executables**, in all reachable systems. -/
theorem Reachable.marked {config : Config} {swap : Swap} {m : Machine}
    (h : Reachable HasRoom (ofMachine m) s) (hboot : Machine.boot config swap = .ok m) :
    s.Marked :=
  h.invariant_of_sound (sound_boot hboot) (fun _ hp => absurd hp List.not_mem_nil)
    fun _ _ _ _ ht hroom hm => (turn ht hroom).marked ht hm

/-- Frames neither come nor go. -/
theorem Turn.size_directory (ht : Turn s mv s') :
    s'.machine.kernel.frames.directory.size = s.machine.kernel.frames.directory.size := by
  cases ht with
  | went processes torn orderly => exact orderly.size
  | tore processes mem torn orderly cleared => exact orderly.size
  | joined processes torn machine pid index room layout table =>
    rw [machine]
    rfl

theorem Reachable.size_directory {config : Config} {swap : Swap} {m : Machine}
    (h : Reachable HasRoom (ofMachine m) s) (hboot : Machine.boot config swap = .ok m) :
    s.machine.kernel.frames.directory.size = config.frameCount := by
  obtain ⟨-, rfl⟩ := eq_started_of_boot hboot
  refine h.invariant_of_sound
    (P := fun t => t.machine.kernel.frames.directory.size = config.frameCount) (sound_boot hboot)
    ?_ fun _ _ _ _ ht hroom hm => (turn ht hroom).size_directory.trans hm
  exact Array.size_replicate

end System

end DemandPaging
