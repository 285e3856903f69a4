import DemandPaging.Image.Executable

/-!
# Executables held in memory

An image is built section by section from byte strings. The last page of a section is filled up
with zeroes.
-/

namespace DemandPaging

/-- A section together with its bytes, which are kept so that any page of them is at hand. -/
structure Segment where
  header : Section
  bytes : Array UInt8
  deriving DecidableEq

/-- The bytes of page `k`, fewer on the last page. -/
def Segment.chunk (s : Segment) (k : Nat) : Bytes :=
  (s.bytes.extract (k * pageSize) (k * pageSize + pageSize)).toList

theorem Segment.chunk_eq_slice (s : Segment) (k : Nat) :
    s.chunk k = Bytes.slice s.bytes.toList (k * pageSize) pageSize := by
  simp [chunk, Bytes.slice, Array.toList_extract, List.extract_eq_take_drop]

/-- An executable whose sections are byte strings. -/
structure MemoryImage where
  segments : List Segment
  entry : VirtualAddress
  deriving DecidableEq

namespace MemoryImage

/-- An image without sections that starts at address zero. -/
def empty : MemoryImage := ⟨[], .zero⟩

def withEntryPoint (img : MemoryImage) (a : VirtualAddress) : MemoryImage := { img with entry := a }

/-- Append a section that starts at a given page. -/
def withSectionAt (img : MemoryImage) (name : String) (first : PageNumber) (bytes : Bytes)
    (readOnly : Bool) : MemoryImage :=
  { img with segments := img.segments ++ [⟨⟨name, first, bytes.pageCount, readOnly⟩, bytes.toArray⟩] }

/-- The page after the last section. -/
def nextPage (img : MemoryImage) : Nat :=
  match img.segments.getLast? with
  | none => 0
  | some s => s.header.first.toNat + s.header.pages

/-- Append a section right after the last one. -/
def withSection (img : MemoryImage) (name : String) (bytes : Bytes) (readOnly : Bool) :
    MemoryImage :=
  img.withSectionAt name (.ofNatClamped img.nextPage) bytes readOnly

def sections (img : MemoryImage) : List Section := img.segments.map Segment.header

/-- A section that does not exist is not read-only. -/
def isReadOnly (img : MemoryImage) (index : Nat) : Bool :=
  match img.segments[index]? with
  | none => false
  | some s => s.header.readOnly

/-- Fill `frame` with page `k` of a section: the bytes of that page, then zeroes. -/
def loadPage (img : MemoryImage) (index k : Nat) (frame : Bytes) :
    Except (Stop LoadError) Bytes :=
  match img.segments[index]? with
  | none => .error (.error (.noSuchSection index))
  | some s =>
    if sizeBound ≤ k * pageSize then .error (.violation .overflow)
    else if s.header.pages ≤ k then .error (.error (.pageOutOfRange index k))
    else
      let chunk := s.chunk k
      if chunk.length ≤ frame.length then .ok (chunk.padTo frame.length)
      else .error (.violation .outOfBounds)

/-- The same, one statement after the other, on a frame that changes on the way: what a statement has
changed stays changed if a later one fails. -/
def load (img : MemoryImage) (index k : Nat) : EStateM (Stop LoadError) Bytes Unit := do
  match img.segments[index]? with
  | none => throw (.error (.noSuchSection index))
  | some s =>
    if sizeBound ≤ k * pageSize then throw (.violation .overflow)
    if s.header.pages ≤ k then throw (.error (.pageOutOfRange index k))
    let chunk := s.chunk k
    if (← get).length < chunk.length then throw (.violation .outOfBounds)
    modify fun frame => frame.overwrite 0 chunk
    modify fun frame =>
      frame.overwrite chunk.length (List.replicate (frame.length - chunk.length) 0)

/-- No statement fails after one that has changed the frame. -/
theorem run_load (img : MemoryImage) (index k : Nat) (frame : Bytes) :
    (img.load index k).run frame =
      match img.loadPage index k frame with
      | .ok frame' => .ok () frame'
      | .error stop => .error stop frame := by
  unfold load loadPage
  cases img.segments[index]? with
  | none => rfl
  | some s =>
    by_cases hfar : sizeBound ≤ k * pageSize
    · simp only [hfar, if_true]
      rfl
    · by_cases hk : s.header.pages ≤ k
      · simp only [hfar, hk, if_true, if_false]
        rfl
      · by_cases hfits : (s.chunk k).length ≤ frame.length
        · have hfew : ¬ frame.length < (s.chunk k).length := Nat.not_lt.mpr hfits
          have hwhole : (frame.overwrite 0 (s.chunk k)).length = frame.length :=
            Bytes.length_overwrite (by omega)
          simp only [hfar, hk, hfits, hfew, if_true, if_false, EStateM.run_bind, EStateM.run_get,
            EStateM.run_modify, hwhole, Bytes.overwrite_zeroes hfits]
        · simp only [hfar, hk, hfits, if_false, EStateM.run_bind, EStateM.run_get,
            Nat.not_le.mp hfits, if_true]
          rfl

end MemoryImage

/-! ## Images with defects -/

/-- A memory image of which some pages cannot be loaded, or which calls every section read-only. -/
structure Image where
  memory : MemoryImage
  /-- No page can be loaded. -/
  unreadable : Bool
  /-- Pairs of a section and a page that cannot be loaded. -/
  badPages : List (Nat × Nat)
  /-- Every section is read-only, those that do not exist included. -/
  isSealed : Bool
  deriving DecidableEq

namespace Image

/-- An image without defects. -/
def ofMemory (img : MemoryImage) : Image := ⟨img, false, [], false⟩

def isReadOnly (img : Image) (index : Nat) : Bool := img.isSealed || img.memory.isReadOnly index

/-- Fill `frame` with a page of a section, unless a defect forbids it. -/
def loadPage (img : Image) (index k : Nat) (frame : Bytes) : Except (Stop LoadError) Bytes :=
  if img.unreadable then .error (.error (.noSuchSection index))
  else if img.badPages.contains (index, k) then .error (.error (.pageOutOfRange index k))
  else img.memory.loadPage index k frame

/-- The image as the memory manager sees it. -/
def toExecutable (img : Image) : Executable where
  sections := img.memory.sections
  entry := img.memory.entry
  page index k := (img.loadPage index k Page.zero.bytes).map Page.ofPrefix
  readOnly := img.isReadOnly

end Image

/-- The pages of zeroes. -/
theorem MemoryImage.loadPage_zeroes (name : String) (pages k : Nat) :
    (empty.withSection name (List.replicate (pages * pageSize) 0) false).loadPage 0 k
        Page.zero.bytes =
      if sizeBound ≤ k * pageSize then .error (.violation .overflow)
      else if pages ≤ k then .error (.error (.pageOutOfRange 0 k))
      else .ok Page.zero.bytes := by
  simp only [loadPage, withSection, withSectionAt, empty, List.nil_append, List.getElem?_cons_zero,
    Bytes.pageCount_replicate, Segment.chunk_eq_slice]
  by_cases hk : pages ≤ k
  · rw [if_pos hk, if_pos hk]
  · have hfits : k * pageSize + pageSize ≤ pages * pageSize := by
      rw [← Nat.succ_mul]
      exact Nat.mul_le_mul_right _ (Nat.lt_of_not_le hk)
    simp [hk, Bytes.slice_replicate hfits, Page.zero, Bytes.padTo]

/-- An executable of zeroes is an image with one section of zeroes. -/
theorem Executable.zeroes_eq (name : String) (pages : Nat) :
    zeroes name pages = (Image.ofMemory (MemoryImage.empty.withSection name
      (List.replicate (pages * pageSize) 0) false)).toExecutable := by
  unfold zeroes Image.toExecutable
  rw [Executable.mk.injEq]
  refine ⟨?_, rfl, ?_, ?_⟩
  · simp only [Image.ofMemory, MemoryImage.sections, MemoryImage.withSection,
      MemoryImage.withSectionAt, MemoryImage.empty, List.nil_append, List.map_cons, List.map_nil,
      Bytes.pageCount_replicate]
    rfl
  · funext index k
    cases index with
    | succ index => rfl
    | zero =>
      have hload := MemoryImage.loadPage_zeroes name pages k
      simp only [Image.ofMemory, Image.loadPage, Bool.false_eq_true, if_false,
        List.contains_nil, hload, if_neg (not_not_intro (rfl : 0 = 0))]
      split
      · rfl
      · split
        · rfl
        · exact congrArg Except.ok (Page.ofPrefix_bytes .zero).symm
  · funext index
    cases index <;> rfl

end DemandPaging
