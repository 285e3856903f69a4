import Mathlib.Algebra.Ring.Nat
import DemandPaging.Proofs.Partition

/-!
# A freshly loaded image

An image is built section by section from byte strings (`MemoryImage.Built`). Its sections are
accepted as they are, and when all pages of the layout are filled, in any order and whatever the
frames held before, the frames together hold the byte strings, each of them filled up to whole
pages, and then the zeroes of stack and arguments.
-/

namespace DemandPaging

/-! ## A byte string page by page -/

namespace Bytes

/-- `bs` and as many zeroes as it takes to fill the last page. -/
def paddedToPages (bs : Bytes) : Bytes := bs.padTo (bs.pageCount * pageSize)

theorem length_le_pageCount (bs : Bytes) : bs.length ≤ bs.pageCount * pageSize := by
  simp only [pageCount, pageSize]
  omega

/-- The pieces of a string, the last one filled up, and behind them pieces of zeroes. -/
theorem flatMap_padTo_slice {bs : Bytes} {n size : Nat} (h : bs.length ≤ n * size) :
    (List.range n).flatMap (fun k => (bs.slice (k * size) size).padTo size) =
      bs.padTo (n * size) := by
  induction n generalizing bs with
  | zero =>
    rw [Nat.zero_mul] at h
    simp [List.eq_nil_of_length_eq_zero (Nat.le_zero.mp h), padTo]
  | succ n ih =>
    rw [Nat.succ_mul] at h
    have hrest : (bs.drop size).length ≤ n * size := by
      rw [List.length_drop]
      omega
    have hslice : ∀ k, bs.slice ((k + 1) * size) size = slice (bs.drop size) (k * size) size :=
      fun k => by rw [slice, slice, List.drop_drop, Nat.succ_mul, Nat.add_comm]
    rw [List.range_succ_eq_map, List.flatMap_cons, List.flatMap_map]
    simp only [hslice, ih hrest]
    rw [Nat.zero_mul, slice, List.drop_zero, Nat.succ_mul]
    -- the first piece is all of the string and gets zeroes, or it is full and gets none
    by_cases hlast : bs.length ≤ size
    · have hzeroes : size - bs.length + n * size = n * size + size - bs.length := by omega
      rw [List.take_of_length_le hlast, List.drop_eq_nil_of_le hlast]
      simp only [padTo, List.nil_append, List.length_nil, Nat.sub_zero, List.append_assoc,
        List.replicate_append_replicate, hzeroes]
    · have htake : (bs.take size).length = size := by
        rw [List.length_take]
        omega
      have hzeroes : n * size - (bs.length - size) = n * size + size - bs.length := by omega
      simp only [padTo, htake, Nat.sub_self, List.replicate_zero, List.append_nil,
        List.length_drop, hzeroes]
      rw [← List.append_assoc, List.take_append_drop]

end Bytes

/-! ## Sections one behind the other -/

namespace Layout

variable {front behind sections : List Section} {ranges ranges' : List PageRange}
  {index next mid stop : Nat}

/-- More sections are placed behind those that are placed. -/
theorem place_append (h : place front index next = .ok (ranges, mid))
    (h' : place behind (index + front.length) mid = .ok (ranges', stop)) :
    place (front ++ behind) index next = .ok (ranges ++ ranges', stop) := by
  induction front generalizing index next ranges with
  | nil =>
    cases h
    exact h'
  | cons s rest ih =>
    obtain ⟨hfirst, hfits, rs, rfl, hrest⟩ := place_cons_eq_ok.mp h
    rw [List.length_cons, Nat.add_comm rest.length, ← Nat.add_assoc] at h'
    exact place_cons_eq_ok.mpr ⟨hfirst, hfits, _, rfl, ih hrest h'⟩

theorem map_count_of_place (h : place sections index next = .ok (ranges, stop)) :
    ranges.map PageRange.count = sections.map Section.pages := by
  induction sections generalizing index next ranges with
  | nil =>
    cases h
    rfl
  | cons s rest ih =>
    obtain ⟨-, -, rs, rfl, hrest⟩ := place_cons_eq_ok.mp h
    rw [List.map_cons, List.map_cons, ih hrest]

/-- Sections that are placed are accepted if there is room for stack and arguments behind them. -/
theorem ofSections_of_place {stackPages : Nat} (h : place sections 0 0 = .ok (ranges, stop))
    (hfits : stop + stackPages + argumentPages ≤ maxProcessPages) :
    ofSections sections stackPages = .ok ⟨ranges, stop, stop + stackPages + argumentPages⟩ := by
  have hmax : maxProcessPages < sizeBound := by decide
  rw [ofSections, h]
  simp only [bind, Except.bind]
  rw [if_neg (by omega), if_neg (by omega)]

/-- All pages in ascending order. -/
def pages (l : Layout) : List PageNumber := (List.range l.numPages).map PageNumber.ofNat

theorem mem_pages {l : Layout} (hmax : l.numPages ≤ maxProcessPages) {page : PageNumber} :
    page ∈ l.pages ↔ page.toNat < l.numPages := by
  have hword : maxProcessPages < wordBound := by decide
  rw [pages, List.mem_map]
  constructor
  · rintro ⟨n, hn, rfl⟩
    rw [List.mem_range] at hn
    rwa [PageNumber.toNat_ofNat (by omega)]
  · exact fun hpage => ⟨page.toNat, List.mem_range.mpr hpage, PageNumber.ofNat_toNat page⟩

end Layout

/-! ## Images that are built section by section -/

/-- A page of a section, filled up with zeroes if it is the last one. -/
def Segment.page (s : Segment) (k : Nat) : Page :=
  ⟨(s.chunk k).padTo pageSize, Bytes.length_padTo (s.length_chunk_le k)⟩

namespace MemoryImage

variable {img : MemoryImage} {contents : List Bytes} {l : Layout} {stackPages i k : Nat}
  {page : PageNumber}

/-- `img` is built of sections with these contents, each behind the one before. -/
inductive Built : MemoryImage → List Bytes → Prop
  | empty : Built .empty []
  | withSection {img : MemoryImage} {contents : List Bytes} (before : Built img contents)
      (name : String) (bytes : Bytes) (readOnly : Bool) :
      Built (img.withSection name bytes readOnly) (contents ++ [bytes])

/-- Fill a frame that holds `old` with a page: load it from its section, or make it zeroes. -/
def fill (img : MemoryImage) (l : Layout) (page : PageNumber) (old : Page) : Option Bytes :=
  match l.source? page with
  | none => none
  | some .zeroFill => some (List.replicate old.bytes.length 0)
  | some (.fromSection i k) => (img.loadPage i k old.bytes).toOption

/-- The pages that contents fill. -/
def pagesOf (contents : List Bytes) : Nat := (contents.map Bytes.pageCount).sum

/-- The sections have these contents and are placed one behind the other. -/
structure Holds (img : MemoryImage) (contents : List Bytes) : Prop where
  bytes : img.segments.map (·.bytes.toList) = contents
  counts : img.sections.map Section.pages = contents.map Bytes.pageCount
  nextPage : img.nextPage = pagesOf contents
  placed : ∃ ranges, Layout.place img.sections 0 0 = .ok (ranges, pagesOf contents)

theorem pagesOf_append (contents : List Bytes) (bytes : Bytes) :
    pagesOf (contents ++ [bytes]) = pagesOf contents + bytes.pageCount := by
  simp [pagesOf]

/-- One more section. -/
theorem Holds.withSection (h : img.Holds contents) (name : String) (bytes : Bytes)
    (readOnly : Bool) (hfits : pagesOf contents + bytes.pageCount ≤ maxProcessPages) :
    (img.withSection name bytes readOnly).Holds (contents ++ [bytes]) := by
  have hword : maxProcessPages < wordBound := by decide
  have hsize : wordBound ≤ sizeBound := by decide
  have hfirst : (PageNumber.ofNatClamped img.nextPage).toNat = pagesOf contents := by
    rw [h.nextPage, PageNumber.ofNatClamped, PageNumber.toNat_ofNat (by omega)]
    omega
  have hsections : (img.withSection name bytes readOnly).sections =
      img.sections ++ [⟨name, .ofNatClamped img.nextPage, bytes.pageCount, readOnly⟩] := by
    simp [sections, MemoryImage.withSection, withSectionAt]
  obtain ⟨ranges, hplaced⟩ := h.placed
  constructor
  · simp [MemoryImage.withSection, withSectionAt, h.bytes]
  · simp [hsections, h.counts]
  · simp [MemoryImage.nextPage, MemoryImage.withSection, withSectionAt, pagesOf_append, ← hfirst]
  · refine ⟨ranges ++ [⟨pagesOf contents, bytes.pageCount⟩], ?_⟩
    rw [hsections, pagesOf_append]
    exact Layout.place_append hplaced
      (Layout.place_cons_eq_ok.mpr ⟨hfirst, by dsimp only; omega, [], rfl, rfl⟩)

theorem Built.holds (h : Built img contents) (hfits : pagesOf contents ≤ maxProcessPages) :
    img.Holds contents := by
  induction h with
  | empty => exact ⟨rfl, rfl, rfl, [], rfl⟩
  | withSection before name bytes readOnly ih =>
    rw [pagesOf_append] at hfits
    exact (ih (by omega)).withSection name bytes readOnly hfits

/-! ## What the pages are filled with -/

/-- What a page is filled with. -/
def contentOf (img : MemoryImage) (l : Layout) (page : PageNumber) : Page :=
  match l.source? page with
  | some (.fromSection i k) => (img.segments[i]?.map (·.page k)).getD .zero
  | _ => .zero

section

variable (hlayout : Layout.ofSections img.sections stackPages = .ok l)
include hlayout

/-- A section of the layout has as many pages as the image says. -/
theorem length_sectionPages (i : Nat) :
    (l.sectionPages i).length = (img.segments[i]?.map (·.header.pages)).getD 0 := by
  have hcounts := Layout.map_count_of_place (Layout.place_of_ofSections hlayout).1
  have hcount : l.ranges[i]?.map PageRange.count = img.segments[i]?.map (·.header.pages) := by
    rw [← List.getElem?_map, hcounts, sections, List.map_map, List.getElem?_map]
    rfl
  rw [← hcount, Layout.sectionPages]
  cases l.ranges[i]? <;> simp [PageRange.pages]

/-- A page that comes from a section is loaded whole, whatever the frame holds. -/
theorem loadPage_of_source (hsource : l.source? page = some (.fromSection i k)) :
    ∃ s, img.segments[i]? = some s ∧
      ∀ old : Page, img.loadPage i k old.bytes = .ok (s.page k).bytes := by
  have hpage := (Layout.source?_eq_fromSection_iff hlayout).mp hsource
  have hk := (List.getElem?_eq_some_iff.mp hpage).1
  rw [length_sectionPages hlayout] at hk
  cases hs : img.segments[i]? with
  | none =>
    rw [hs] at hk
    exact absurd hk (Nat.not_lt_zero k)
  | some s =>
    rw [hs, Option.map_some, Option.getD_some] at hk
    refine ⟨s, rfl, fun old => ?_⟩
    have hsize : ¬ sizeBound ≤ k * pageSize := by
      obtain ⟨r, -, -, htoNat⟩ := (Layout.getElem?_sectionPages hlayout).mp hpage
      have hword : page.toNat < wordBound := page.val.toNat_lt
      simp only [wordBound, sizeBound, pageSize] at hword ⊢
      omega
    have hchunk : (s.chunk k).length ≤ old.bytes.length := old.length_bytes ▸ s.length_chunk_le k
    simp only [loadPage, hs, if_neg hsize, if_neg (Nat.not_le.mpr hk), if_pos hchunk]
    rw [old.length_bytes, Segment.page]

/-- The pages of one section in order. -/
theorem map_contentOf_sectionPages {s : Segment} (hs : img.segments[i]? = some s) :
    (l.sectionPages i).map (img.contentOf l) = (List.range s.header.pages).map s.page := by
  have hlength := length_sectionPages hlayout i
  rw [hs, Option.map_some, Option.getD_some] at hlength
  refine List.ext_getElem (by simp [hlength]) fun k hk _ => ?_
  rw [List.length_map] at hk
  have hsource := (Layout.source?_eq_fromSection_iff hlayout).mpr (List.getElem?_eq_getElem hk)
  simp [contentOf, hsource, hs]

theorem fill_eq (hpage : page.toNat < l.numPages) (old : Page) :
    img.fill l page old = some (img.contentOf l page).bytes := by
  obtain ⟨source, hsource⟩ := l.exists_source (decide_eq_true hpage)
  rw [fill, contentOf, hsource]
  cases source with
  | zeroFill => simp only [Page.zero, old.length_bytes]
  | fromSection i k =>
    obtain ⟨s, hs, hload⟩ := loadPage_of_source hlayout hsource
    simp only [hload, hs]
    rfl

/-- A process that runs the image finds these contents when it first touches its pages. -/
theorem initialContent_eq {p : UserProcess} (himage : p.image = (Image.ofMemory img).toExecutable)
    (hl : p.layout = l) (hpage : page.toNat < l.numPages) :
    p.initialContent page = .ok (img.contentOf l page) := by
  obtain ⟨source, hsource⟩ := l.exists_source (decide_eq_true hpage)
  rw [UserProcess.initialContent, contentOf, hl, hsource]
  cases source with
  | zeroFill => rfl
  | fromSection i k =>
    obtain ⟨s, hs, hload⟩ := loadPage_of_source hlayout hsource
    have hofMemory : (Image.ofMemory img).loadPage i k Page.zero.bytes = .ok (s.page k).bytes := by
      simp [Image.loadPage, Image.ofMemory, hload]
    simp only [himage, Image.toExecutable, hofMemory, hs]
    exact congrArg Except.ok (Page.ofPrefix_bytes _)

/-- The pages of one section hold its bytes and zeroes. -/
theorem Holds.flatMap_sectionPages (h : img.Holds contents) (i : Nat) :
    (l.sectionPages i).flatMap (fun page => (img.contentOf l page).bytes) =
      contents[i]?.toList.flatMap Bytes.paddedToPages := by
  have hbytes : contents[i]? = img.segments[i]?.map (·.bytes.toList) := by
    rw [← h.bytes, List.getElem?_map]
  have hcounts := congrArg (·[i]?) h.counts
  simp only [sections, List.map_map, List.getElem?_map] at hcounts
  cases hs : img.segments[i]? with
  | none =>
    have hlength := length_sectionPages hlayout i
    rw [hs, Option.map_none, Option.getD_none, List.length_eq_zero_iff] at hlength
    simp [hbytes, hs, hlength]
  | some s =>
    rw [hs, Option.map_some] at hbytes
    rw [hs, hbytes, Option.map_some, Option.map_some, Option.some.injEq, Function.comp_apply]
      at hcounts
    have hchunks := Bytes.flatMap_padTo_slice (Bytes.length_le_pageCount s.bytes.toList)
    rw [← List.flatMap_map (img.contentOf l) Page.bytes, map_contentOf_sectionPages hlayout hs,
      hcounts, List.flatMap_map]
    simpa [hbytes, Bytes.paddedToPages, Segment.page, Segment.chunk_eq_slice] using hchunks

/-- **All pages together** hold the contents of the sections, and then zeroes. -/
theorem Holds.flatMap_pages (h : img.Holds contents) :
    l.pages.flatMap (fun page => (img.contentOf l page).bytes) =
      contents.flatMap Bytes.paddedToPages ++
        List.replicate ((stackPages + argumentPages) * pageSize) 0 := by
  obtain ⟨-, hnum, hmax⟩ := Layout.place_of_ofSections hlayout
  have hcode : (List.range l.codePages).map PageNumber.ofNat =
      (List.range contents.length).flatMap l.sectionPages := by
    have hlength := congrArg List.length h.counts
    rw [List.length_map, List.length_map] at hlength
    rw [← Layout.map_toNat_sectionPages hlayout, List.map_map, hlength]
    simp [Function.comp_def]
  have hzero : ∀ n ∈ List.range (stackPages + argumentPages),
      (img.contentOf l (.ofNat (l.codePages + n))).bytes = List.replicate pageSize 0 := by
    intro n hn
    have hword : maxProcessPages < wordBound := by decide
    rw [List.mem_range] at hn
    have htoNat : (PageNumber.ofNat (l.codePages + n)).toNat = l.codePages + n :=
      PageNumber.toNat_ofNat (by omega)
    rw [contentOf, Layout.source?_eq_zeroFill hlayout (by omega) (by omega), Page.zero]
  rw [Layout.pages, hnum, Nat.add_assoc, List.range_add, List.map_append, List.flatMap_append,
    hcode, List.flatMap_assoc]
  -- the code pages, section after section, and the pages behind them
  congr 1
  · simp only [h.flatMap_sectionPages hlayout, flatMap_range_getElem?]
  · simp only [List.map_map, List.flatMap_map, Function.comp_apply]
    rw [List.flatMap_congr hzero]
    simp [List.flatMap_def]

end

end MemoryImage

/-! ## Pages are populated in any order -/

namespace Action

variable {m : Machine} {p : UserProcess} {order : List PageNumber}
  {frame : PageNumber → FrameNumber} {content : PageNumber → Page}

/-- Pages of which there is no copy, each populated into a frame of its own, hold what the
executable provides, whatever the order. -/
theorem run_populate_all
    (hread : ∀ page ∈ order, m.kernel.swap.load (p.pid, page) pageSize = .ok (none, m.kernel.swap))
    (hcontent : ∀ page ∈ order, p.initialContent page = .ok (content page))
    (hframe : ∀ page ∈ order, (frame page).toNat < m.kernel.memory.frameCount)
    (hnodup : (order.map frame).Nodup) :
    ∃ m', (forM order fun page => populate p page (frame page)).run m = .ok () m' ∧
      (∀ page ∈ order, m'.kernel.memory.frame (frame page) = .ok (content page)) ∧
      ∀ f ∉ order.map frame, m'.kernel.memory.frame f = m.kernel.memory.frame f := by
  induction order generalizing m with
  | nil => exact ⟨m, rfl, fun _ hpage => absurd hpage List.not_mem_nil, fun _ _ => rfl⟩
  | cons page rest ih =>
    rw [List.map_cons, List.nodup_cons] at hnodup
    rw [List.forall_mem_cons] at hread hcontent hframe
    have hrun := run_populate_of_initialContent hframe.1 hread.1 hcontent.1
    have hsize : (m.withBytes (frame page) (content page)).kernel.memory.frameCount =
        m.kernel.memory.frameCount := Array.size_setIfInBounds
    obtain ⟨m', hrest, hfilled, hothers⟩ := ih (m := m.withBytes (frame page) (content page))
      hread.2 hcontent.2 (hsize ▸ hframe.2) hnodup.2
    refine ⟨m', ?_, ?_, fun f hf => ?_⟩
    · rw [List.forM_cons, EStateM.run_bind, hrun]
      exact hrest
    · refine List.forall_mem_cons.mpr ⟨?_, hfilled⟩
      rw [hothers _ hnodup.1, PhysicalMemory.frame,
        Machine.bytes_withBytes_self (Array.getElem?_eq_getElem hframe.1)]
    · rw [List.map_cons, List.mem_cons, not_or] at hf
      rw [hothers f hf.2, PhysicalMemory.frame, PhysicalMemory.frame,
        Machine.bytes_withBytes_of_ne _ hf.1]

end Action

/-! ## Main statement -/

namespace MemoryImage

variable {img : MemoryImage} {contents : List Bytes} {stackPages : Nat}

/-- **A freshly loaded image is its sections, one after the other.** An image that is built section
by section, with contents of any length, is accepted together with a stack if all pages fit into an
address space. Each page has a content, and the contents of all pages, one after the other, are the
contents of the sections, each of them filled up with zeroes to whole pages, and then the pages of
zeroes for the stack and the arguments. A frame that is filled with a page gets the content of the
page, whatever it held before. So if a process runs the image, and the store can be read and has no
copy of its pages, then they can be populated in any order, each into a frame of its own. -/
theorem Built.loads (h : Built img contents)
    (hfits : pagesOf contents + stackPages + argumentPages ≤ maxProcessPages) :
    ∃ l, Layout.ofSections img.sections stackPages = .ok l ∧
      l.numPages = pagesOf contents + stackPages + argumentPages ∧
      ∃ content : PageNumber → Page,
        l.pages.flatMap (fun page => (content page).bytes) =
          contents.flatMap Bytes.paddedToPages ++
            List.replicate ((stackPages + argumentPages) * pageSize) 0 ∧
        (∀ page ∈ l.pages, ∀ old, img.fill l page old = some (content page).bytes) ∧
        ∀ (m : Machine) (p : UserProcess) (order : List PageNumber)
          (frame : PageNumber → FrameNumber),
          p.image = (Image.ofMemory img).toExecutable → p.layout = l →
          (∀ page ∈ l.pages, m.kernel.swap.unreadable page = false ∧
            m.kernel.swap.copy? (p.pid, page) = none) →
          (∀ page ∈ l.pages, (frame page).toNat < m.kernel.memory.frameCount) →
          (l.pages.map frame).Nodup → order.Perm l.pages →
          ∃ m', (forM order fun page => Action.populate p page (frame page)).run m = .ok () m' ∧
            ∀ page ∈ l.pages, m'.kernel.memory.frame (frame page) = .ok (content page) := by
  have hholds := h.holds (by omega)
  obtain ⟨l, hlayout, hnum⟩ : ∃ l, Layout.ofSections img.sections stackPages = .ok l ∧
      l.numPages = pagesOf contents + stackPages + argumentPages := by
    obtain ⟨ranges, hplaced⟩ := hholds.placed
    exact ⟨_, Layout.ofSections_of_place hplaced hfits, rfl⟩
  have hmem : ∀ page ∈ l.pages, page.toNat < l.numPages := fun page =>
    (Layout.mem_pages (hnum ▸ hfits)).mp
  refine ⟨l, hlayout, hnum, img.contentOf l, hholds.flatMap_pages hlayout,
    fun page hpage => fill_eq hlayout (hmem page hpage),
    fun m p order frame himage hl hstore hframe hnodup hperm => ?_⟩
  have hin : ∀ page ∈ order, page ∈ l.pages := fun page => hperm.mem_iff.mp
  have hload : ∀ page ∈ order,
      m.kernel.swap.load (p.pid, page) pageSize = .ok (none, m.kernel.swap) := fun page hpage => by
    obtain ⟨hreadable, hcopy⟩ := hstore page (hin page hpage)
    simp [Swap.load, hreadable, hcopy]
  obtain ⟨m', hrun, hfilled, -⟩ := Action.run_populate_all hload
    (fun page hpage => initialContent_eq hlayout himage hl (hmem page (hin page hpage)))
    (fun page hpage => hframe page (hin page hpage)) ((hperm.map frame).nodup_iff.mpr hnodup)
  exact ⟨m', hrun, fun page hpage => hfilled page (hperm.mem_iff.mpr hpage)⟩

/-- Less than a page, nothing, and a byte more than a page. -/
def threeContents : List Bytes := [[1, 2, 3], [], List.replicate (pageSize + 1) 7]

def threeSections : MemoryImage :=
  ((empty.withSection "text" [1, 2, 3] true).withSection "bss" [] false).withSection "data"
    (List.replicate (pageSize + 1) 7) false

/-- A machine with six frames that are full of old bytes. -/
def soiled : Machine :=
  (Machine.fresh 6).withMemory ⟨Array.replicate 6 ⟨List.replicate pageSize 9, by simp⟩⟩

/-- The pages are populated from the last to the first. -/
theorem loads_threeSections : ∃ (l : Layout) (m' : Machine) (frames : List Page),
    Layout.ofSections threeSections.sections 2 = .ok l ∧ l.numPages = 6 ∧
    (forM l.pages.reverse fun page => Action.populate
        ⟨⟨1⟩, (Image.ofMemory threeSections).toExecutable, l, .demand, 0, .zero, ⟨0⟩⟩ page
        (.ofNat page.toNat)).run soiled = .ok () m' ∧
    l.pages.map (fun page => m'.kernel.memory.frame (.ofNat page.toNat)) = frames.map .ok ∧
    frames.flatMap Page.bytes =
      threeContents.flatMap Bytes.paddedToPages ++ List.replicate (3 * pageSize) 0 := by
  have h : Built threeSections threeContents :=
    ((Built.empty.withSection _ _ _).withSection _ _ _).withSection _ _ _
  have hpages : pagesOf threeContents = 3 := by
    simp only [pagesOf, threeContents, Bytes.pageCount, List.map_cons, List.map_nil,
      List.length_replicate, List.length_cons, List.length_nil, List.sum_cons, List.sum_nil]
    rfl
  have hfits : pagesOf threeContents + 2 + argumentPages ≤ maxProcessPages := by
    rw [hpages]
    decide
  obtain ⟨l, hlayout, hnum, content, hcontent, -, hpopulate⟩ := h.loads hfits
  rw [hpages] at hnum
  have hl : l.pages = (List.range 6).map PageNumber.ofNat := by rw [Layout.pages, hnum]; rfl
  obtain ⟨m', hrun, hfilled⟩ := hpopulate soiled
    ⟨⟨1⟩, (Image.ofMemory threeSections).toExecutable, l, .demand, 0, .zero, ⟨0⟩⟩ l.pages.reverse
    (fun page => .ofNat page.toNat) rfl rfl (fun _ _ => ⟨rfl, rfl⟩) (by rw [hl]; decide)
    (by rw [hl]; decide) l.pages.reverse_perm
  refine ⟨l, m', l.pages.map content, hlayout, hnum, hrun, ?_, ?_⟩
  · rw [List.map_map]
    exact List.map_congr_left hfilled
  · rw [List.flatMap_map]
    exact hcontent

end MemoryImage

end DemandPaging
