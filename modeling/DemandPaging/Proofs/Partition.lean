import DemandPaging.Proofs.AddressSplitting
import DemandPaging.Proofs.Attributes

/-!
# A layout divides its pages

Three functions speak of where a section lies: `Layout.place` puts the sections one behind the
other, `Layout.sectionPages` lists the pages of one, and `Layout.source?` looks for the section of a
page. They agree: the pages of all sections, one section after the other, are the code pages in
ascending order, and the source of a page is its place in this list. Sections without pages have no
part in it, although they begin at the same page as the section behind them.
-/

namespace DemandPaging

/-- The pages of a range in order, as numbers. -/
theorem PageRange.map_toNat_pages {r : PageRange} (h : r.stop ≤ wordBound) :
    r.pages.map PageNumber.toNat = List.range' r.first r.count := by
  have hid : ∀ n ∈ List.range' r.first r.count, (PageNumber.ofNat n).toNat = n := fun n hn =>
    PageNumber.toNat_ofNat (Nat.lt_of_lt_of_le (List.mem_range'_1.mp hn).2 h)
  rw [pages, List.map_map]
  exact (List.map_congr_left hid).trans (List.map_id' _)

/-- What comes of the elements of a list, taken one after the other by their index. -/
theorem flatMap_range_getElem? {α β : Type} (xs : List α) (f : α → List β) :
    (List.range xs.length).flatMap (fun i => xs[i]?.toList.flatMap f) = xs.flatMap f := by
  induction xs with
  | nil => rfl
  | cons x xs ih =>
    rw [List.length_cons, List.range_succ_eq_map, List.flatMap_cons, List.flatMap_map]
    simpa using ih

namespace Layout

variable {sections : List Section} {ranges : List PageRange}
  {stackPages index next stop i k : Nat} {l : Layout} {page : PageNumber}

/-! ## The pages of all sections -/

/-- Sections that are placed one behind the other fill all pages up to the end of the last one. -/
theorem map_toNat_of_place (h : place sections index next = .ok (ranges, stop))
    (hstop : stop ≤ wordBound) :
    (ranges.flatMap PageRange.pages).map PageNumber.toNat = List.range' next (stop - next) := by
  induction sections generalizing index next ranges with
  | nil =>
    cases h
    simp
  | cons s rest ih =>
    have hle := (stop_le_of_place h).2
    obtain ⟨-, -, rs, rfl, hrest⟩ := place_cons_eq_ok.mp h
    have hnext := (stop_le_of_place hrest).1
    have hfits := Nat.le_trans (hle _ List.mem_cons_self) hstop
    have hsize : stop - next = s.pages + (stop - (next + s.pages)) := by omega
    rw [List.flatMap_cons, List.map_append, PageRange.map_toNat_pages hfits, ih hrest, hsize,
      List.range'_append_1]

theorem sectionPages_eq (l : Layout) (i : Nat) :
    l.sectionPages i = l.ranges[i]?.toList.flatMap PageRange.pages := by
  unfold sectionPages
  cases l.ranges[i]? <;> simp

section

variable (h : ofSections sections stackPages = .ok l)
include h

/-- **The pages of the sections**, one section after the other, are the code pages in order. -/
theorem map_toNat_sectionPages :
    ((List.range sections.length).flatMap l.sectionPages).map PageNumber.toNat =
      List.range l.codePages := by
  obtain ⟨hplace, -, -⟩ := place_of_ofSections h
  have hsections : (List.range sections.length).flatMap l.sectionPages =
      l.ranges.flatMap PageRange.pages := by
    rw [← (consecutive_of_sections h).2, ← flatMap_range_getElem? l.ranges]
    exact List.flatMap_congr fun i _ => sectionPages_eq l i
  rw [hsections, map_toNat_of_place hplace (ranges_fit h).1, Nat.sub_zero, List.range_eq_range']

/-- Code pages are the pages that belong to a section. -/
theorem lt_codePages_iff : page.toNat < l.codePages ↔ ∃ i, page ∈ l.sectionPages i := by
  rw [← List.mem_range, ← map_toNat_sectionPages h, List.mem_map]
  simp only [PageNumber.toNat_inj, exists_eq_right, List.mem_flatMap, List.mem_range]
  constructor
  · rintro ⟨i, -, hpage⟩
    exact ⟨i, hpage⟩
  · rintro ⟨i, hpage⟩
    refine ⟨i, ?_, hpage⟩
    obtain ⟨r, hr, -⟩ := (mem_sectionPages (ranges_fit h).2).mp hpage
    rw [← (consecutive_of_sections h).2]
    exact (List.getElem?_eq_some_iff.mp hr).1

/-! ## The source of a page -/

/-- The `k`-th page of a section. -/
theorem getElem?_sectionPages : (l.sectionPages i)[k]? = some page ↔
    ∃ r, l.ranges[i]? = some r ∧ k < r.count ∧ page.toNat = r.first + k := by
  unfold sectionPages
  cases hr : l.ranges[i]? with
  | none => simp
  | some r =>
    have hfits := (ranges_fit h).2 r (List.mem_of_getElem? hr)
    rw [PageRange.stop] at hfits
    simp only [PageRange.pages, List.getElem?_map, Option.map_eq_some_iff, Option.some.injEq,
      exists_eq_left', List.getElem?_eq_some_iff, List.length_range', List.getElem_range',
      Nat.one_mul]
    constructor
    · rintro ⟨n, ⟨hk, rfl⟩, rfl⟩
      exact ⟨hk, PageNumber.toNat_ofNat (by omega)⟩
    · rintro ⟨hk, hpage⟩
      exact ⟨r.first + k, ⟨hk, rfl⟩, by rw [← hpage, PageNumber.ofNat_toNat]⟩

/-- Where a section begins, how many pages it has and which page comes from it agree. -/
theorem source?_eq_fromSection_iff :
    l.source? page = some (.fromSection i k) ↔ (l.sectionPages i)[k]? = some page := by
  obtain ⟨hconsecutive, -⟩ := consecutive_of_sections h
  obtain ⟨-, -, hstop⟩ := ofSections_spec h
  rw [getElem?_sectionPages h, source?, Option.ite_none_right_eq_some, Option.some.injEq,
    sourceIn_eq_fromSection_iff hconsecutive]
  constructor
  · rintro ⟨-, r, hr, hn, rfl⟩
    rw [PageRange.contains_iff, PageRange.stop] at hn
    exact ⟨r, hr, by omega, by omega⟩
  · rintro ⟨r, hr, hk, hpage⟩
    have hlt := hstop r (List.mem_of_getElem? hr)
    have hn : r.contains page.toNat = true := by
      rw [PageRange.contains_iff, PageRange.stop]
      omega
    rw [PageRange.stop] at hlt
    exact ⟨decide_eq_true (by omega), r, hr, hn, by omega⟩

/-- Stack and arguments come from no section. -/
theorem source?_eq_zeroFill (hcode : l.codePages ≤ page.toNat) (hnum : page.toNat < l.numPages) :
    l.source? page = some .zeroFill := by
  obtain ⟨source, hsource⟩ := l.exists_source (decide_eq_true hnum)
  cases source with
  | zeroFill => exact hsource
  | fromSection i k =>
    have hpage := (source?_eq_fromSection_iff h).mp hsource
    have hlt := (lt_codePages_iff h).mpr ⟨i, List.mem_of_getElem? hpage⟩
    omega

/-- The argument page is the last one. -/
theorem toNat_argumentPage : l.argumentPage.toNat + 1 = l.numPages := by
  obtain ⟨hpos, hmax, -⟩ := ofSections_spec h
  have hword : maxProcessPages < wordBound := by decide
  rw [argumentPage, PageNumber.toNat_ofNat (by omega)]
  exact Nat.sub_add_cancel hpos

/-- No section reaches up to the argument page. -/
theorem source?_argumentPage : l.source? l.argumentPage = some .zeroFill := by
  have hlast := toNat_argumentPage h
  obtain ⟨-, hnum, -⟩ := place_of_ofSections h
  rw [argumentPages] at hnum
  exact source?_eq_zeroFill h (by omega) (by omega)

end

/-! ## Main statement -/

/-- **A layout divides the address space.** Whatever the sections are that an accepted layout is
made of, sections without pages included: A page comes from page `k` of a section exactly if it is
the `k`-th page of the section. Each code page belongs to exactly one section; the pages behind them
are zeroes, and there are no others. The pages of the sections, one section after the other, are the
code pages in ascending order, none left out and none twice. The last page is for the arguments. It
comes from no section, and it has an address. -/
theorem divides (h : ofSections sections stackPages = .ok l) :
    (∀ page i k, l.source? page = some (.fromSection i k) ↔ (l.sectionPages i)[k]? = some page) ∧
    (∀ page : PageNumber, page.toNat < l.codePages → ∃! i, page ∈ l.sectionPages i) ∧
    (∀ page : PageNumber, l.codePages ≤ page.toNat → page.toNat < l.numPages →
      l.source? page = some .zeroFill) ∧
    (∀ page : PageNumber, l.numPages ≤ page.toNat → l.source? page = none) ∧
    ((List.range sections.length).flatMap l.sectionPages).map PageNumber.toNat =
      List.range l.codePages ∧
    l.argumentPage.toNat + 1 = l.numPages ∧ l.source? l.argumentPage = some .zeroFill ∧
    ∃ a, l.argumentPage.base? = some a ∧ a.toNat = l.argumentPage.toNat * pageSize := by
  obtain ⟨hpos, hmax, -⟩ := ofSections_spec h
  have hiff : ∀ page i k,
      l.source? page = some (.fromSection i k) ↔ (l.sectionPages i)[k]? = some page :=
    fun _ _ _ => source?_eq_fromSection_iff h
  refine ⟨hiff, fun page hpage => ?_, fun _ => source?_eq_zeroFill h, fun page hpage => ?_,
    map_toNat_sectionPages h, toNat_argumentPage h, source?_argumentPage h, ?_⟩
  · obtain ⟨i, hi⟩ := (lt_codePages_iff h).mp hpage
    refine ⟨i, hi, fun j hj => ?_⟩
    obtain ⟨k, hk⟩ := List.getElem?_of_mem hi
    obtain ⟨k', hk'⟩ := List.getElem?_of_mem hj
    rw [← hiff] at hk hk'
    cases hk.symm.trans hk'
    rfl
  · have hout : ¬ l.contains page = true := by
      rw [Layout.contains, decide_eq_true_eq]
      omega
    rw [source?, if_neg hout]
  · obtain ⟨a, ha⟩ := exists_stackTop hpos hmax
    exact ⟨a, ha, (PageNumber.base?_spec ha).2.2.1⟩

/-- Sections of two pages and of one page, each behind a section without pages. -/
def sparse : List Section :=
  [⟨"start", .ofNat 0, 0, false⟩, ⟨"text", .ofNat 0, 2, true⟩, ⟨"gap", .ofNat 2, 0, false⟩,
    ⟨"data", .ofNat 2, 1, false⟩]

theorem divides_sparse : ∃ l, ofSections sparse 3 = .ok l ∧
    l.source? (.ofNat 0) = some (.fromSection 1 0) ∧
    l.source? (.ofNat 2) = some (.fromSection 3 0) ∧
    ((List.range 4).flatMap l.sectionPages).map PageNumber.toNat = [0, 1, 2] ∧
    l.argumentPage.toNat = 6 := by
  have h : ofSections sparse 3 = .ok ⟨[⟨0, 0⟩, ⟨0, 2⟩, ⟨2, 0⟩, ⟨2, 1⟩], 3, 7⟩ := rfl
  obtain ⟨hsource, -, -, -, hpages, hargument, -⟩ := divides h
  exact ⟨_, h, (hsource ..).mpr rfl, (hsource ..).mpr rfl, hpages, Nat.succ.inj hargument⟩

end Layout

end DemandPaging
