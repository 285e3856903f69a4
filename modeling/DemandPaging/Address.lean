import DemandPaging.Text.Inspect
import DemandPaging.Text.Hex

/-!
# Addresses, pages and frames

Virtual addresses are 32-bit words and physical addresses 64-bit words. Both split into a page (or
frame) number and an offset below the page size. Operations that have no result in the machine's
word size return `none`.
-/

namespace DemandPaging

/-- Binary digits of an address that belong to the offset. -/
def pageShift : Nat := 10

/-- Bytes in a page and in a frame. -/
def pageSize : Nat := 1024

/-- Numbers of pages and frames have 32 bits and are below this. -/
def wordBound : Nat := 0x1_0000_0000

/-- Byte counts and indices have 64 bits and are below this. -/
def sizeBound : Nat := 0x1_0000_0000_0000_0000

/-! ## Offsets -/

/-- Position of a byte in its page. -/
structure PageOffset where
  toNat : Nat
  toNat_lt : toNat < pageSize
  deriving DecidableEq

namespace PageOffset

/-- The first byte of a page. -/
def zero : PageOffset := ⟨0, by decide⟩

def ofNat? (n : Nat) : Option PageOffset :=
  if h : n < pageSize then some ⟨n, h⟩ else none

/-- Bytes from the offset to the end of its page. -/
def remaining (o : PageOffset) : Nat := pageSize - o.toNat

instance : ToString PageOffset := ⟨fun o => "+0x" ++ Hex.upper 3 o.toNat⟩
instance : Inspect PageOffset := ⟨fun o => toString o⟩

end PageOffset

/-! ## Numbers and addresses -/

/-- Number of a page in the address space of a process. -/
structure PageNumber where
  val : UInt32
  deriving DecidableEq, Inhabited

/-- Number of a frame of physical memory. -/
structure FrameNumber where
  val : UInt32
  deriving DecidableEq, Inhabited

/-- Address of a byte in the address space of a process. -/
structure VirtualAddress where
  val : UInt32
  deriving DecidableEq, Inhabited

/-- Address of a byte in physical memory. -/
structure PhysicalAddress where
  val : UInt64
  deriving DecidableEq, Inhabited

/-- The sum of two byte counts, if that is a byte count. -/
def addBytes? (m n : Nat) : Option Nat := if m + n < sizeBound then some (m + n) else none

/-- Bytes in `pages` pages, if that is a byte count. -/
def pageBytes? (pages : Nat) : Option Nat :=
  if pages * pageSize < sizeBound then some (pages * pageSize) else none

namespace VirtualAddress

def toNat (a : VirtualAddress) : Nat := a.val.toNat

def zero : VirtualAddress := ⟨0⟩

/-- The page that holds the byte. -/
def page (a : VirtualAddress) : PageNumber := ⟨a.val >>> .ofNat pageShift⟩

theorem toNat_and_lt (w : UInt32) : (w &&& 1023).toNat < pageSize := by
  rw [UInt32.toNat_and]
  exact Nat.lt_of_le_of_lt Nat.and_le_right (by decide)

/-- The place of the byte in its page. -/
def offset (a : VirtualAddress) : PageOffset := ⟨(a.val &&& 1023).toNat, toNat_and_lt a.val⟩

/-- The address `n` bytes further on, unless that is past the last address. -/
def add? (a : VirtualAddress) (n : Nat) : Option VirtualAddress :=
  if a.toNat + n < wordBound then some ⟨UInt32.ofNat (a.toNat + n)⟩ else none

theorem toNat_page (a : VirtualAddress) : a.page.val.toNat = a.toNat / pageSize := by
  rw [page, UInt32.toNat_shiftRight]
  exact Nat.shiftRight_eq_div_pow a.val.toNat 10

theorem toNat_offset (a : VirtualAddress) : a.offset.toNat = a.toNat % pageSize := by
  simp only [offset, UInt32.toNat_and]
  exact Nat.and_two_pow_sub_one_eq_mod a.val.toNat 10

theorem toNat_of_add? {a b : VirtualAddress} {n : Nat} (h : a.add? n = some b) :
    b.toNat = a.toNat + n := by
  unfold add? at h
  split at h
  · next hlt =>
    rw [Option.some.injEq] at h
    rw [← h]
    exact Nat.mod_eq_of_lt hlt
  · contradiction

theorem add?_zero (a : VirtualAddress) : a.add? 0 = some a := by
  have hlt : a.toNat + 0 < wordBound := a.val.toNat_lt
  rw [add?, if_pos hlt, Nat.add_zero, toNat, UInt32.ofNat_toNat]

/-- Two bytes of one page. -/
theorem page_offset_of_toNat {a b : VirtualAddress} {d : Nat} (h : b.toNat = a.toNat + d)
    (hd : a.offset.toNat + d < pageSize) :
    b.page = a.page ∧ b.offset.toNat = a.offset.toNat + d := by
  rw [toNat_offset, pageSize] at hd
  constructor
  · have hpage : b.page.val.toNat = a.page.val.toNat := by
      rw [toNat_page, toNat_page, h, pageSize]
      omega
    exact congrArg PageNumber.mk (UInt32.toNat_inj.mp hpage)
  · rw [toNat_offset, toNat_offset, h, pageSize]
    omega

instance : ToString VirtualAddress := ⟨fun a => "0x" ++ Hex.upper 8 a.toNat⟩
instance : Inspect VirtualAddress := ⟨fun a => Inspect.applied "VA" [toString a]⟩

end VirtualAddress

namespace PageNumber

def toNat (p : PageNumber) : Nat := p.val.toNat

/-- The page whose number is `n` modulo the word size. -/
def ofNat (n : Nat) : PageNumber := ⟨UInt32.ofNat n⟩

/-- The page with number `n`, or the last number there is if `n` is larger. -/
def ofNatClamped (n : Nat) : PageNumber := ofNat (min n (wordBound - 1))

/-- Address of the first byte; only pages below 2 ^ 22 have one. -/
def base? (p : PageNumber) : Option VirtualAddress :=
  if p.val ≤ 0x3FFFFF then some ⟨p.val <<< .ofNat pageShift⟩ else none

/-- Address of the byte at offset `o`. -/
def join? (p : PageNumber) (o : PageOffset) : Option VirtualAddress :=
  p.base?.map fun a => ⟨a.val ||| UInt32.ofNat o.toNat⟩

/-- The following page, unless this is the last number. -/
def next? (p : PageNumber) : Option PageNumber :=
  if p.val = 0xFFFFFFFF then none else some ⟨p.val + 1⟩

theorem toNat_inj {p q : PageNumber} : p.toNat = q.toNat ↔ p = q := by
  cases p
  cases q
  simp [toNat, UInt32.toNat_inj]

theorem toNat_ofNat {n : Nat} (h : n < wordBound) : (ofNat n).toNat = n := Nat.mod_eq_of_lt h

@[simp] theorem ofNat_toNat (p : PageNumber) : ofNat p.toNat = p := by simp [ofNat, toNat]

instance : ToString PageNumber := ⟨fun p => "vpn " ++ toString p.toNat⟩
instance : Inspect PageNumber := ⟨fun p => Inspect.applied "VPN" [toString p.toNat]⟩

end PageNumber

namespace FrameNumber

def toNat (f : FrameNumber) : Nat := f.val.toNat

/-- The frame whose number is `n` modulo the word size. -/
def ofNat (n : Nat) : FrameNumber := ⟨UInt32.ofNat n⟩

/-- The frame at position `i` of the pool, if frames can be numbered that far. -/
def ofIndex? (i : Nat) : Option FrameNumber :=
  if i < wordBound then some (ofNat i) else none

/-- Address of the first byte; it always fits, since physical addresses have 64 bits. -/
def base (f : FrameNumber) : PhysicalAddress := ⟨f.val.toUInt64 * 1024⟩

/-- Address of the byte at offset `o`. -/
def join (f : FrameNumber) (o : PageOffset) : PhysicalAddress :=
  ⟨f.base.val + UInt64.ofNat o.toNat⟩

theorem toNat_inj {f g : FrameNumber} : f.toNat = g.toNat ↔ f = g := by
  cases f
  cases g
  simp [toNat, UInt32.toNat_inj]

theorem toNat_ofNat {n : Nat} (h : n < wordBound) : (ofNat n).toNat = n := Nat.mod_eq_of_lt h

@[simp] theorem ofNat_toNat (f : FrameNumber) : ofNat f.toNat = f := by simp [ofNat, toNat]

instance : ToString FrameNumber := ⟨fun f => "pfn " ++ toString f.toNat⟩
instance : Inspect FrameNumber := ⟨fun f => Inspect.applied "PFN" [toString f.toNat]⟩

end FrameNumber

namespace PhysicalAddress

def toNat (a : PhysicalAddress) : Nat := a.val.toNat

/-- The frame that holds the byte; its number keeps only 32 bits. -/
def frame (a : PhysicalAddress) : FrameNumber := ⟨(a.val >>> .ofNat pageShift).toUInt32⟩

theorem toNat_and_lt (w : UInt64) : (w &&& 1023).toNat < pageSize := by
  rw [UInt64.toNat_and]
  exact Nat.lt_of_le_of_lt Nat.and_le_right (by decide)

/-- The place of the byte in its frame. -/
def offset (a : PhysicalAddress) : PageOffset := ⟨(a.val &&& 1023).toNat, toNat_and_lt a.val⟩

instance : ToString PhysicalAddress := ⟨fun a => "0x" ++ Hex.upper 8 a.toNat⟩
instance : Inspect PhysicalAddress := ⟨fun a => Inspect.applied "PA" [toString a]⟩

end PhysicalAddress

end DemandPaging
