import DemandPaging.PageEntry
import DemandPaging.Violation

/-!
# Page tables

One entry per page of an address space. Only a valid entry translates its page to a frame. The
read-only bit belongs to the page and not to the mapping, so it outlives every eviction.
-/

namespace DemandPaging

/-- Why an entry could not be changed. -/
inductive PageTableError where
  | outOfRange (page : PageNumber) (size : Nat)
  | frameTooLarge (frame : FrameNumber)
  deriving DecidableEq

namespace PageTableError

def message : PageTableError → String
  | outOfRange p size => s!"{p} is outside the address space of {size} pages"
  | frameTooLarge f => s!"{f} cannot be encoded in a page table entry"

instance : ToString PageTableError := ⟨message⟩

instance : Inspect PageTableError where
  inspect
    | outOfRange p size => Inspect.record "OutOfRange" [("vpn", inspect p), ("len", inspect size)]
    | frameTooLarge f => Inspect.applied "FrameTooLarge" [inspect f]

end PageTableError

/-- The entries of one address space, by page number. -/
structure PageTable where
  entries : Array PageEntry
  deriving DecidableEq

namespace PageTable

/-- A table of `pages` pages, none of them resident or read-only. -/
def ofPages (pages : Nat) : PageTable := ⟨Array.replicate pages PageEntry.empty⟩

/-- A table of `pages` pages, if that many pages can be numbered. -/
def ofPages? (pages : Nat) : Option PageTable :=
  if pages ≤ wordBound then some (ofPages pages) else none

/-- The table of an address space without pages. -/
def empty : PageTable := ⟨#[]⟩

def size (t : PageTable) : Nat := t.entries.size

def contains (t : PageTable) (p : PageNumber) : Bool := p.toNat < t.size

def get? (t : PageTable) (p : PageNumber) : Option PageEntry := t.entries[p.toNat]?

/-- The frame that holds `p`. -/
def translate? (t : PageTable) (p : PageNumber) : Option FrameNumber :=
  (t.get? p).bind PageEntry.frame?

/-- The table with entry `e` for page `p`; a page outside the table changes nothing. -/
def setEntry (t : PageTable) (p : PageNumber) (e : PageEntry) : PageTable :=
  ⟨t.entries.setIfInBounds p.toNat e⟩

@[simp] theorem size_setEntry (t : PageTable) (p : PageNumber) (e : PageEntry) :
    (t.setEntry p e).size = t.size := by
  simp [setEntry, size]

theorem get?_setEntry (t : PageTable) (p q : PageNumber) (e : PageEntry) :
    (t.setEntry p e).get? q = if q = p then (t.get? p).map fun _ => e else t.get? q := by
  simp only [setEntry, get?]
  by_cases h : q = p
  · subst h
    simp only [Array.getElem?_setIfInBounds_self, if_true]
    split <;> simp [*]
  · rw [Array.getElem?_setIfInBounds_ne fun hn => h (PageNumber.toNat_inj.1 hn).symm, if_neg h]

theorem get?_ofPages (n : Nat) (p : PageNumber) :
    (ofPages n).get? p = if p.toNat < n then some .empty else none := by
  simp [ofPages, get?, Array.getElem?_replicate]

theorem isSome_get? (t : PageTable) (p : PageNumber) : (t.get? p).isSome = t.contains p := by
  rw [Bool.eq_iff_iff, contains, decide_eq_true_iff]
  simp [get?, size]

/-- Map `p` to frame `f` as a clean page. The page must not be resident. -/
def install (t : PageTable) (p : PageNumber) (f : FrameNumber) (referenced : Bool) :
    Except (Stop PageTableError) PageTable :=
  match PageEntry.frameBits? f with
  | none => .error (.error (.frameTooLarge f))
  | some v =>
    match t.get? p with
    | none => .error (.error (.outOfRange p t.size))
    | some e =>
      if e.valid then .error (.violation (.installedTwice p))
      else .ok (t.setEntry p (.resident v e.readOnly referenced))

/-- Drop the mapping of `p`. The entry as it was comes back, unless `p` is outside the table. -/
def invalidate (t : PageTable) (p : PageNumber) : Option PageEntry × PageTable :=
  match t.get? p with
  | none => (none, t)
  | some e => (some e, if e.valid then t.setEntry p e.evicted else t)

/-- Put an entry back as it was. -/
def restore (t : PageTable) (p : PageNumber) (e : PageEntry) : Except PageTableError PageTable :=
  if t.contains p then .ok (t.setEntry p e) else .error (.outOfRange p t.size)

/-- Note an access to `p`: a resident page becomes referenced and, by a write, dirty. -/
def markAccess (t : PageTable) (p : PageNumber) (write : Bool) : PageTable :=
  match t.get? p with
  | none => t
  | some e =>
    if e.valid then
      let e := e.put .referenced true
      t.setEntry p (if write then e.put .dirty true else e)
    else t

/-- Make page `p` read-only or writable. -/
def setReadOnly (t : PageTable) (p : PageNumber) (b : Bool) : Except PageTableError PageTable :=
  match t.get? p with
  | none => .error (.outOfRange p t.size)
  | some e => .ok (t.setEntry p (e.put .readOnly b))

/-- The pages below `n` for which `f` has a value, in ascending order, in front of `acc`. -/
def collectBelow {α : Type} (t : PageTable) (f : PageEntry → Option α) :
    Nat → List (PageNumber × α) → List (PageNumber × α)
  | 0, acc => acc
  | n + 1, acc =>
    match t.entries[n]?.bind f with
    | none => collectBelow t f n acc
    | some a => collectBelow t f n ((PageNumber.ofNat n, a) :: acc)

/-- The resident pages and their frames, in ascending order of pages. -/
def resident (t : PageTable) : List (PageNumber × FrameNumber) :=
  t.collectBelow PageEntry.frame? t.size []

/-- The pages whose entry has some bit set, in ascending order. -/
def inUse (t : PageTable) : List (PageNumber × PageEntry) :=
  t.collectBelow (fun e => if e = PageEntry.empty then none else some e) t.size []

def residentCount (t : PageTable) : Nat := t.entries.countP PageEntry.valid

instance : Inspect PageTable where
  inspect t := Inspect.record "PageTable"
    [("pages", inspect t.size), ("resident", inspect t.residentCount)]

end PageTable

end DemandPaging
