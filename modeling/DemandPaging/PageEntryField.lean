import Mathlib.Algebra.Ring.Nat
import DemandPaging.PageEntry

/-!
# Fields of a page table entry

The word of an entry is cut into six fields. Here a field is data: where it lies in the word
(`EntryField.low`, `EntryField.width`), what it holds as a number (`PageEntry.field`), and the calls
that set it (`PageEntry.Assignment`). So one can speak of all sequences of such calls
(`PageEntry.assignAll?`).
-/

namespace DemandPaging

/-- A field of an entry. -/
inductive EntryField where
  | flag (f : EntryFlag)
  | system
  | frame
  deriving DecidableEq

namespace EntryField

/-- The lowest bit of the field. -/
def low : EntryField → Nat
  | flag f => f.bit
  | system => 4
  | frame => 8

/-- How many bits the field has. -/
def width : EntryField → Nat
  | flag _ => 1
  | system => 4
  | frame => 24

/-- Bit `i` of the word belongs to the field. -/
def Covers (x : EntryField) (i : Nat) : Prop := x.low ≤ i ∧ i < x.low + x.width

instance (x : EntryField) (i : Nat) : Decidable (x.Covers i) :=
  inferInstanceAs (Decidable (_ ∧ _))

end EntryField

namespace PageEntry

/-- What a field holds, as a number. -/
def field (e : PageEntry) : EntryField → Nat
  | .flag f => (e.has f).toNat
  | .system => e.system.toNat
  | .frame => e.frameBits.toNat

/-- What the fields of a clean page in frame `f` hold. -/
def residentFields (f : FrameNumber) (readOnly referenced : Bool) : EntryField → Nat
  | .flag .valid => 1
  | .flag .readOnly => readOnly.toNat
  | .flag .dirty => 0
  | .flag .referenced => referenced.toNat
  | .system => 0
  | .frame => f.toNat

/-- A call that sets a field. -/
inductive Assignment where
  | flag (f : EntryFlag) (b : Bool)
  | system (n : Nat)
  | frame (f : FrameNumber)

namespace Assignment

/-- The field that is set. -/
def field : Assignment → EntryField
  | flag f _ => .flag f
  | system _ => .system
  | frame _ => .frame

/-- What it is set to, as a number. -/
def value : Assignment → Nat
  | flag _ b => b.toNat
  | system n => n
  | frame f => f.toNat

/-- The number fits the bits of the field. -/
def Fits (a : Assignment) : Prop := a.value < 2 ^ a.field.width

instance (a : Assignment) : Decidable a.Fits := inferInstanceAs (Decidable (_ < _))

@[simp] theorem fits_flag (f : EntryFlag) (b : Bool) : (flag f b).Fits := b.toNat_lt

@[simp] theorem fits_system {n : Nat} : (system n).Fits ↔ n < 16 := Iff.rfl

@[simp] theorem fits_frame {f : FrameNumber} : (frame f).Fits ↔ f.toNat ≤ maxEntryFrame :=
  Nat.lt_succ_iff

end Assignment

/-- The entry with one field set, or `none` if the call violates an assertion. -/
def assign? (e : PageEntry) : Assignment → Option PageEntry
  | .flag f b => some (e.put f b)
  | .system n => (systemBits? n).map e.withSystem
  | .frame f => (frameBits? f).map e.withFrame

/-- The entry after these calls, one after the other. -/
def assignAll? (e : PageEntry) (as : List Assignment) : Option PageEntry := as.foldlM assign? e

/-- What a field was set to last. -/
def lastSet? (as : List Assignment) (x : EntryField) : Option Nat :=
  (as.reverse.find? fun a => a.field = x).map Assignment.value

end PageEntry

end DemandPaging
