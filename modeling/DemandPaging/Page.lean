import DemandPaging.Address

/-!
# Bytes and pages of bytes

Byte strings are lists. A `Page` is a byte string of exactly one page, so whatever fills a frame
fills all of it.
-/

namespace DemandPaging

/-- A string of bytes. -/
abbrev Bytes := List UInt8

namespace Bytes

/-- Replace the bytes from position `start` on by `src`. -/
def overwrite (dst : Bytes) (start : Nat) (src : Bytes) : Bytes :=
  dst.take start ++ src ++ dst.drop (start + src.length)

/-- The `n` bytes from position `start` on, fewer at the end of the string. -/
def slice (bs : Bytes) (start n : Nat) : Bytes := (bs.drop start).take n

/-- `bs` and as many zeroes as it takes to have `n` bytes. -/
def padTo (n : Nat) (bs : Bytes) : Bytes := bs ++ List.replicate (n - bs.length) 0

/-- Pages needed to hold `bs`. -/
def pageCount (bs : Bytes) : Nat := (bs.length + (pageSize - 1)) / pageSize

theorem length_overwrite {dst src : Bytes} {start : Nat} (h : start + src.length ≤ dst.length) :
    (overwrite dst start src).length = dst.length := by
  simp [overwrite]; omega

theorem length_slice {bs : Bytes} {start n : Nat} (h : start + n ≤ bs.length) :
    (slice bs start n).length = n := by
  simp [slice]; omega

theorem length_padTo {n : Nat} {bs : Bytes} (h : bs.length ≤ n) : (padTo n bs).length = n := by
  simp [padTo]; omega

/-- Bytes from the front on are replaced, and all others become zero. -/
theorem overwrite_zeroes {dst src : Bytes} (h : src.length ≤ dst.length) :
    overwrite (overwrite dst 0 src) src.length (List.replicate (dst.length - src.length) 0) =
      padTo dst.length src := by
  simp [overwrite, padTo, h]

theorem pageCount_replicate (pages : Nat) (b : UInt8) :
    pageCount (List.replicate (pages * pageSize) b) = pages := by
  rw [pageCount, List.length_replicate, pageSize]
  omega

theorem slice_replicate {n start amount : Nat} (h : start + amount ≤ n) (b : UInt8) :
    slice (List.replicate n b) start amount = List.replicate amount b := by
  rw [slice, List.drop_replicate, List.take_replicate, Nat.min_eq_left (by omega)]

end Bytes

/-- The content of a page: as many bytes as a frame holds. -/
structure Page where
  bytes : Bytes
  length_bytes : bytes.length = pageSize
  deriving DecidableEq

namespace Page

/-- The page of zeroes. -/
def zero : Page := ⟨List.replicate pageSize 0, by simp⟩

/-- A byte string of the right length as a page. -/
def ofBytes? (bs : Bytes) : Option Page :=
  if h : bs.length = pageSize then some ⟨bs, h⟩ else none

theorem ofBytes?_bytes (p : Page) : ofBytes? p.bytes = some p := dif_pos p.length_bytes

theorem exists_eq_bytes {bs : Bytes} (h : bs.length = pageSize) : ∃ p : Page, bs = p.bytes :=
  ⟨⟨bs, h⟩, rfl⟩

/-- The first bytes of `bs`, followed by zeroes if there are too few. -/
def ofPrefix (bs : Bytes) : Page :=
  ⟨Bytes.padTo pageSize (bs.take pageSize), Bytes.length_padTo (List.length_take_le ..)⟩

/-- A page is all of its bytes. -/
theorem ofPrefix_bytes (p : Page) : ofPrefix p.bytes = p := by
  obtain ⟨bs, hbs⟩ := p
  have htake : bs.take pageSize = bs := List.take_of_length_le (Nat.le_of_eq hbs)
  simp [ofPrefix, htake, Bytes.padTo, hbs]

/-- The bytes `start`, …, `start + n - 1`, if they lie inside the page. -/
def read? (p : Page) (start n : Nat) : Option Bytes :=
  if start + n ≤ pageSize then some (p.bytes.slice start n) else none

/-- The page with `src` written over the bytes from `start` on, if that range lies inside it. -/
def write? (p : Page) (start : Nat) (src : Bytes) : Option Page :=
  if h : start + src.length ≤ pageSize then
    some ⟨p.bytes.overwrite start src,
      (Bytes.length_overwrite (p.length_bytes.symm ▸ h)).trans p.length_bytes⟩
  else none

end Page

end DemandPaging
