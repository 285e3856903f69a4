import DemandPaging.Proofs.LoadedImage

/-!
# Pages that an image has, and pages that it does not have

An image keeps the bytes of a section beside the number of their pages. However the image is put
together, with sections behind one another, at pages of their own, or both in turn
(`MemoryImage.Assembled`), the two stay in step. So a load finds the bytes of every page that it lets
pass, and no page that exists is turned away. The place of a page among the bytes is counted before the
page is looked up; a page so far off that the count overflows is a violation, and not an error.
-/

namespace DemandPaging

namespace Bytes

/-- A byte of a string that is filled up with zeroes. -/
theorem getElem?_padTo (bs : Bytes) {n j : Nat} (hj : j < n) :
    (bs.padTo n)[j]? = some (bs[j]?.getD 0) := by
  rw [padTo, List.getElem?_append]
  split
  · next hlt => rw [List.getElem?_eq_getElem hlt, Option.getD_some]
  · next hge =>
    rw [List.getElem?_replicate, if_pos (by omega), List.getElem?_eq_none (Nat.not_lt.mp hge),
      Option.getD_none]

end Bytes

namespace MemoryImage

variable {img : MemoryImage} {contents : List Bytes} {bs : Bytes} {index k : Nat}

/-- `img` was put together from sections with these contents, each behind the one before or at some
page of its own. -/
inductive Assembled : MemoryImage → List Bytes → Prop
  | empty : Assembled .empty []
  | withSection {img : MemoryImage} {contents : List Bytes} (before : Assembled img contents)
      (name : String) (bytes : Bytes) (readOnly : Bool) :
      Assembled (img.withSection name bytes readOnly) (contents ++ [bytes])
  | withSectionAt {img : MemoryImage} {contents : List Bytes} (before : Assembled img contents)
      (name : String) (first : PageNumber) (bytes : Bytes) (readOnly : Bool) :
      Assembled (img.withSectionAt name first bytes readOnly) (contents ++ [bytes])
  | withEntryPoint {img : MemoryImage} {contents : List Bytes} (before : Assembled img contents)
      (a : VirtualAddress) : Assembled (img.withEntryPoint a) contents

/-- What a frame that holds `old` holds after a page was to be loaded into it. -/
def frameAfter (img : MemoryImage) (index k : Nat) (old : Page) : Bytes :=
  match (img.load index k).run old.bytes with
  | .ok _ frame => frame
  | .error _ frame => frame

theorem frameAfter_of_ok {old : Page} {frame : Bytes}
    (h : img.loadPage index k old.bytes = .ok frame) : img.frameAfter index k old = frame := by
  rw [frameAfter, run_load, h]

/-- A load that fails has not touched the frame. -/
theorem frameAfter_of_error {old : Page} {stop : Stop LoadError}
    (h : img.loadPage index k old.bytes = .error stop) :
    img.frameAfter index k old = old.bytes := by
  rw [frameAfter, run_load, h]

/-- The sections and the counts of their pages stay in step. -/
theorem Assembled.inStep (h : Assembled img contents) :
    img.segments.map (fun s => (s.bytes.toList, s.header.pages)) =
      contents.map fun bs => (bs, bs.pageCount) := by
  induction h with
  | empty => rfl
  | withSection before name bytes readOnly ih =>
    simp [MemoryImage.withSection, MemoryImage.withSectionAt, ih]
  | withSectionAt before name first bytes readOnly ih => simp [MemoryImage.withSectionAt, ih]
  | withEntryPoint before a ih => exact ih

/-- There is no segment behind the last content. -/
theorem Assembled.segments_eq_none (h : Assembled img contents) (hindex : contents.length ≤ index) :
    img.segments[index]? = none := by
  have hstep := congrArg (·[index]?) h.inStep
  simp only [List.getElem?_map, List.getElem?_eq_none hindex, Option.map_none,
    Option.map_eq_none_iff] at hstep
  exact hstep

/-- Each segment has its content and counts the pages of it. -/
theorem Assembled.exists_segment (h : Assembled img contents) (hbs : contents[index]? = some bs) :
    ∃ s, img.segments[index]? = some s ∧ s.bytes.toList = bs ∧ s.header.pages = bs.pageCount := by
  have hstep := congrArg (·[index]?) h.inStep
  simp only [List.getElem?_map, hbs, Option.map_some, Option.map_eq_some_iff, Prod.mk.injEq] at hstep
  exact hstep

/-- A load from a section that is there. -/
theorem Assembled.loadPage_eq (h : Assembled img contents) (hbs : contents[index]? = some bs)
    (k : Nat) (old : Page) : img.loadPage index k old.bytes =
      if sizeBound ≤ k * pageSize then .error (.violation .overflow)
      else if bs.pageCount ≤ k then .error (.error (.pageOutOfRange index k))
      else .ok ((bs.slice (k * pageSize) pageSize).padTo pageSize) := by
  obtain ⟨s, hs, rfl, hpages⟩ := h.exists_segment hbs
  have hchunk := s.length_chunk_le k
  rw [s.chunk_eq_slice] at hchunk
  simp only [loadPage, hs, hpages, old.length_bytes, s.chunk_eq_slice, if_pos hchunk]

/-! ## Main statement -/

/-- **A page is loaded whole, or it does not exist.** Whatever an image is put together from, a load
from a section behind the last one is refused, and the frame keeps what it holds. For a section that is
there let the place of the page among the bytes be countable. Then the load is refused, and the frame
keeps what it holds, exactly if the section does not have so many pages; otherwise the load succeeds,
and each byte of the frame becomes the byte of the section at this place, or zero behind the end of
the section. If the place is so far off that it cannot be counted, the overflow is a violation. -/
theorem Assembled.loads_exactly (h : Assembled img contents) (index k : Nat) (old : Page) :
    (img.loadPage index k old.bytes = .error (.error (.noSuchSection index)) ↔
      contents.length ≤ index) ∧
    (contents.length ≤ index → img.frameAfter index k old = old.bytes) ∧
    ∀ bs, contents[index]? = some bs →
      (sizeBound ≤ k * pageSize →
        img.loadPage index k old.bytes = .error (.violation .overflow)) ∧
      (k * pageSize < sizeBound →
        (img.loadPage index k old.bytes = .error (.error (.pageOutOfRange index k)) ↔
          bs.pageCount ≤ k) ∧
        (bs.pageCount ≤ k → img.frameAfter index k old = old.bytes) ∧
        (k < bs.pageCount →
          img.loadPage index k old.bytes = .ok (img.frameAfter index k old) ∧
          (img.frameAfter index k old).length = pageSize ∧
          ∀ j < pageSize,
            (img.frameAfter index k old)[j]? = some (bs[k * pageSize + j]?.getD 0))) := by
  have hnone : contents.length ≤ index →
      img.loadPage index k old.bytes = .error (.error (.noSuchSection index)) := fun hindex => by
    rw [loadPage, h.segments_eq_none hindex]
  refine ⟨⟨fun hload => ?_, hnone⟩, fun hindex => frameAfter_of_error (hnone hindex),
    fun bs hbs => ⟨fun hfar => ?_, fun hnear => ?_⟩⟩
  · by_contra hindex
    rw [h.loadPage_eq (List.getElem?_eq_getElem (Nat.not_le.mp hindex))] at hload
    split at hload
    · cases hload
    · split at hload <;> cases hload
  · rw [h.loadPage_eq hbs, if_pos hfar]
  · have hload := h.loadPage_eq hbs k old
    rw [if_neg (Nat.not_le.mpr hnear)] at hload
    refine ⟨?_, fun hk => ?_, fun hk => ?_⟩
    · rw [hload]
      constructor
      · intro hrange
        by_contra hk
        rw [if_neg hk] at hrange
        cases hrange
      · exact fun hk => if_pos hk
    · rw [if_pos hk] at hload
      exact frameAfter_of_error hload
    · rw [if_neg (Nat.not_le.mpr hk)] at hload
      have hafter := frameAfter_of_ok hload
      refine ⟨hafter ▸ hload, ?_, fun j hj => ?_⟩
      · rw [hafter]
        exact Bytes.length_padTo (List.length_take_le ..)
      · rw [hafter, Bytes.getElem?_padTo _ hj, Bytes.getElem?_slice hj]

/-- A section of three bytes at a page of its own, and a section of a page and two bytes behind it. -/
def scattered : MemoryImage :=
  ((empty.withSectionAt "text" ⟨5⟩ [1, 2, 3] true).withEntryPoint ⟨5120⟩).withSection "data"
    (List.replicate (pageSize + 2) 7) false

/-- A page that was in use. -/
def worn : Page := .ofPrefix (List.replicate pageSize 9)

/-- The second page of the second section has two bytes; it has no third page, and there is no third
section. A page of it that is as far off as can be is a violation. -/
theorem loads_exactly_scattered :
    scattered.loadPage 2 0 worn.bytes = .error (.error (.noSuchSection 2)) ∧
    scattered.loadPage 1 2 worn.bytes = .error (.error (.pageOutOfRange 1 2)) ∧
    scattered.loadPage 1 (sizeBound - 1) worn.bytes = .error (.violation .overflow) ∧
    (scattered.frameAfter 1 1 worn)[1]? = some 7 ∧ (scattered.frameAfter 1 1 worn)[2]? = some 0 := by
  have h : Assembled scattered [[1, 2, 3], List.replicate (pageSize + 2) 7] :=
    ((Assembled.empty.withSectionAt _ _ _ _).withEntryPoint _).withSection _ _ _
  have hcount : Bytes.pageCount (List.replicate (pageSize + 2) 7) = 2 := by
    rw [Bytes.pageCount, List.length_replicate]
    decide
  have hdata := fun k => (h.loads_exactly 1 k worn).2.2 _ rfl
  refine ⟨(h.loads_exactly 2 0 worn).1.mpr (Nat.le_refl 2), ((hdata 2).2 (by decide)).1.mpr ?_,
    (hdata (sizeBound - 1)).1 (by decide), ?_, ?_⟩
  · rw [hcount]
  · rw [(((hdata 1).2 (by decide)).2.2 (by rw [hcount]; decide)).2.2 1 (by decide),
      List.getElem?_replicate]
    rfl
  · rw [(((hdata 1).2 (by decide)).2.2 (by rw [hcount]; decide)).2.2 2 (by decide),
      List.getElem?_replicate]
    rfl

end MemoryImage

end DemandPaging
