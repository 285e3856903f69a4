import DemandPaging.Address

/-!
# Page table entries

An entry is one 32-bit word:

| bits  | field                                        |
|-------|----------------------------------------------|
| 0     | valid: the page is resident                  |
| 1     | read-only                                    |
| 2     | dirty: written since it was installed        |
| 3     | referenced                                   |
| 4–7   | free for use by the system                   |
| 8–31  | number of the frame, meaningful if valid     |

A field that is set reads back, and setting it leaves every other field as it was: `has_put`,
`frameBits_withFrame`, `system_withSystem` and their companions.
-/

namespace DemandPaging

/-- The largest frame number that fits the 24 bits of an entry. -/
def maxEntryFrame : Nat := 0xFF_FFFF

/-- The fields of one bit. -/
inductive EntryFlag where
  | valid
  | readOnly
  | dirty
  | referenced
  deriving DecidableEq

/-- Position of the flag in the word. -/
def EntryFlag.bit : EntryFlag → Nat
  | valid => 0
  | readOnly => 1
  | dirty => 2
  | referenced => 3

theorem EntryFlag.bit_lt (f : EntryFlag) : f.bit < 4 := by cases f <;> decide

theorem EntryFlag.bit_inj {f g : EntryFlag} : f.bit = g.bit ↔ f = g := by
  cases f <;> cases g <;> decide

/-- One packed entry of a page table. -/
structure PageEntry where
  word : BitVec 32
  deriving DecidableEq, Inhabited

namespace PageEntry

/-! ## Bits of a word -/

/-- `w` with bit `i` set to `b`. -/
def putBit (w : BitVec 32) (i : Nat) (b : Bool) : BitVec 32 :=
  if b then w ||| BitVec.twoPow 32 i else w &&& ~~~BitVec.twoPow 32 i

/-- `w` with the `n` bits from bit `lo` on replaced by `v`. -/
def putField {n : Nat} (w : BitVec 32) (lo : Nat) (v : BitVec n) : BitVec 32 :=
  (w &&& ~~~((BitVec.allOnes n).setWidth 32 <<< lo)) ||| (v.setWidth 32 <<< lo)

theorem getLsbD_putBit (w : BitVec 32) {i : Nat} (hi : i < 32) (b : Bool) (j : Nat) :
    (putBit w i b).getLsbD j = if j = i then b else w.getLsbD j := by
  by_cases hj : j = i
  · subst hj
    cases b <;> simp [putBit, hi]
  · cases b <;> simp [putBit, BitVec.getLsbD_twoPow, hj, show ¬ i = j by omega]
    exact BitVec.lt_of_getLsbD

theorem getLsbD_putField {n : Nat} (w : BitVec 32) {lo : Nat} (v : BitVec n) (h : lo + n ≤ 32)
    (j : Nat) :
    (putField w lo v).getLsbD j =
      if lo ≤ j ∧ j < lo + n then v.getLsbD (j - lo) else w.getLsbD j := by
  by_cases hj : j < 32
  · by_cases h1 : j < lo
    · simp [putField, hj, h1, show ¬ lo ≤ j by omega]
    · by_cases h2 : j < lo + n
      · simp [putField, hj, h1, h2, show lo ≤ j by omega, show j - lo < n by omega]
      · simp [putField, hj, h1, h2, show ¬ j - lo < n by omega]
        intro hv
        exact absurd (BitVec.lt_of_getLsbD hv) (by omega)
  · rw [if_neg (by omega), BitVec.getLsbD_of_ge _ _ (by omega),
      BitVec.getLsbD_of_ge _ _ (by omega)]

/-! ## Fields -/

/-- The entry with all bits zero. -/
def empty : PageEntry := ⟨0⟩

def ofNat (n : Nat) : PageEntry := ⟨BitVec.ofNat 32 n⟩

def toNat (e : PageEntry) : Nat := e.word.toNat

def has (e : PageEntry) (f : EntryFlag) : Bool := e.word.getLsbD f.bit

def put (e : PageEntry) (f : EntryFlag) (b : Bool) : PageEntry := ⟨putBit e.word f.bit b⟩

def system (e : PageEntry) : BitVec 4 := e.word.extractLsb' 4 4

def withSystem (e : PageEntry) (v : BitVec 4) : PageEntry := ⟨putField e.word 4 v⟩

def frameBits (e : PageEntry) : BitVec 24 := e.word.extractLsb' 8 24

def withFrame (e : PageEntry) (v : BitVec 24) : PageEntry := ⟨putField e.word 8 v⟩

abbrev valid (e : PageEntry) : Bool := e.has .valid
abbrev readOnly (e : PageEntry) : Bool := e.has .readOnly
abbrev dirty (e : PageEntry) : Bool := e.has .dirty
abbrev referenced (e : PageEntry) : Bool := e.has .referenced

/-- A number as the bits of the system, if it fits them. -/
def systemBits? (n : Nat) : Option (BitVec 4) := if n < 16 then some (BitVec.ofNat 4 n) else none

/-- A frame number as an entry holds it, if it fits. -/
def frameBits? (f : FrameNumber) : Option (BitVec 24) :=
  if f.toNat ≤ maxEntryFrame then some (BitVec.ofNat 24 f.toNat) else none

/-- The frame that holds the page, if it is resident. -/
def frame? (e : PageEntry) : Option FrameNumber :=
  if e.valid then some (FrameNumber.ofNat e.frameBits.toNat) else none

/-- The entry of a clean page that lies in the frame with number `v`. -/
def resident (v : BitVec 24) (readOnly referenced : Bool) : PageEntry :=
  ((((empty.put .valid true).put .readOnly readOnly).put .dirty false).put .referenced
    referenced).withFrame v

/-- The entry of the same page when it is not resident: only the read-only bit is kept. -/
def evicted (e : PageEntry) : PageEntry := empty.put .readOnly e.readOnly

/-! ## What a field holds after another was set -/

@[simp] theorem has_empty (f : EntryFlag) : empty.has f = false := by simp [has, empty]

@[simp] theorem has_put (e : PageEntry) (f g : EntryFlag) (b : Bool) :
    (e.put f b).has g = if g = f then b else e.has g := by
  have hf : f.bit < 32 := Nat.lt_trans f.bit_lt (by decide)
  simp only [has, put, getLsbD_putBit _ hf, EntryFlag.bit_inj]

@[simp] theorem has_withSystem (e : PageEntry) (v : BitVec 4) (f : EntryFlag) :
    (e.withSystem v).has f = e.has f := by
  have hf := f.bit_lt
  simp only [has, withSystem]
  rw [getLsbD_putField _ _ (by decide), if_neg (by omega)]

@[simp] theorem has_withFrame (e : PageEntry) (v : BitVec 24) (f : EntryFlag) :
    (e.withFrame v).has f = e.has f := by
  have hf := f.bit_lt
  simp only [has, withFrame]
  rw [getLsbD_putField _ _ (by decide), if_neg (by omega)]

@[simp] theorem system_empty : empty.system = 0 := rfl

@[simp] theorem system_put (e : PageEntry) (f : EntryFlag) (b : Bool) :
    (e.put f b).system = e.system := by
  have hf := f.bit_lt
  refine BitVec.eq_of_getLsbD_eq fun j hj => ?_
  simp only [system, put, BitVec.getLsbD_extractLsb', hj, decide_true, Bool.true_and]
  rw [getLsbD_putBit _ (by omega), if_neg (by omega)]

@[simp] theorem system_withSystem (e : PageEntry) (v : BitVec 4) : (e.withSystem v).system = v := by
  refine BitVec.eq_of_getLsbD_eq fun j hj => ?_
  simp only [system, withSystem, BitVec.getLsbD_extractLsb', hj, decide_true, Bool.true_and]
  rw [getLsbD_putField _ _ (by decide), if_pos (by omega), Nat.add_sub_cancel_left]

@[simp] theorem system_withFrame (e : PageEntry) (v : BitVec 24) :
    (e.withFrame v).system = e.system := by
  refine BitVec.eq_of_getLsbD_eq fun j hj => ?_
  simp only [system, withFrame, BitVec.getLsbD_extractLsb', hj, decide_true, Bool.true_and]
  rw [getLsbD_putField _ _ (by decide), if_neg (by omega)]

@[simp] theorem frameBits_put (e : PageEntry) (f : EntryFlag) (b : Bool) :
    (e.put f b).frameBits = e.frameBits := by
  have hf := f.bit_lt
  refine BitVec.eq_of_getLsbD_eq fun j hj => ?_
  simp only [frameBits, put, BitVec.getLsbD_extractLsb', hj, decide_true, Bool.true_and]
  rw [getLsbD_putBit _ (by omega), if_neg (by omega)]

@[simp] theorem frameBits_withSystem (e : PageEntry) (v : BitVec 4) :
    (e.withSystem v).frameBits = e.frameBits := by
  refine BitVec.eq_of_getLsbD_eq fun j hj => ?_
  simp only [frameBits, withSystem, BitVec.getLsbD_extractLsb', hj, decide_true, Bool.true_and]
  rw [getLsbD_putField _ _ (by decide), if_neg (by omega)]

@[simp] theorem frameBits_withFrame (e : PageEntry) (v : BitVec 24) :
    (e.withFrame v).frameBits = v := by
  refine BitVec.eq_of_getLsbD_eq fun j hj => ?_
  simp only [frameBits, withFrame, BitVec.getLsbD_extractLsb', hj, decide_true, Bool.true_and]
  rw [getLsbD_putField _ _ (by decide), if_pos (by omega), Nat.add_sub_cancel_left]

@[simp] theorem readOnly_evicted (e : PageEntry) : e.evicted.readOnly = e.readOnly := by
  simp [evicted]

@[simp] theorem dirty_evicted (e : PageEntry) : e.evicted.dirty = false := by simp [evicted]

@[simp] theorem readOnly_resident (v : BitVec 24) (readOnly referenced : Bool) :
    (resident v readOnly referenced).readOnly = readOnly := by simp [resident]

@[simp] theorem dirty_resident (v : BitVec 24) (readOnly referenced : Bool) :
    (resident v readOnly referenced).dirty = false := by simp [resident]

/-- Two entries with the same fields are the same word. -/
theorem ext_fields {e e' : PageEntry} (hflags : ∀ f, e.has f = e'.has f)
    (hsystem : e.system = e'.system) (hframe : e.frameBits = e'.frameBits) : e = e' := by
  cases e with | mk w => cases e' with | mk w' =>
  congr 1
  refine BitVec.eq_of_getLsbD_eq fun j hj => ?_
  by_cases h4 : j < 4
  · match j, h4 with
    | 0, _ => exact hflags .valid
    | 1, _ => exact hflags .readOnly
    | 2, _ => exact hflags .dirty
    | 3, _ => exact hflags .referenced
  · by_cases h8 : j < 8
    · have h := congrArg (BitVec.getLsbD · (j - 4)) hsystem
      simpa only [system, BitVec.getLsbD_extractLsb', show j - 4 < 4 by omega, decide_true,
        Bool.true_and, show 4 + (j - 4) = j by omega] using h
    · have h := congrArg (BitVec.getLsbD · (j - 8)) hframe
      simpa only [frameBits, BitVec.getLsbD_extractLsb', show j - 8 < 24 by omega, decide_true,
        Bool.true_and, show 8 + (j - 8) = j by omega] using h

/-! ## Numbers that fit -/

/-- A number that fits is held as it is. -/
theorem systemBits?_eq_some_iff {n : Nat} {v : BitVec 4} :
    systemBits? n = some v ↔ v.toNat = n := by
  have hv := v.isLt
  rw [systemBits?, Option.ite_none_right_eq_some, Option.some.injEq, ← BitVec.toNat_inj,
    BitVec.toNat_ofNat]
  omega

theorem frameBits?_eq_some_iff {f : FrameNumber} {v : BitVec 24} :
    frameBits? f = some v ↔ v.toNat = f.toNat := by
  have hv := v.isLt
  rw [frameBits?, Option.ite_none_right_eq_some, Option.some.injEq, ← BitVec.toNat_inj,
    BitVec.toNat_ofNat, maxEntryFrame]
  omega

/-! ## The frame of an entry -/

/-- Only a valid entry has a frame, and it is the one whose number stands in the word. -/
theorem frame?_eq_some_iff {e : PageEntry} {f : FrameNumber} :
    e.frame? = some f ↔ e.valid = true ∧ e.frameBits.toNat = f.toNat := by
  have hlt : e.frameBits.toNat < wordBound := Nat.lt_trans e.frameBits.isLt (by decide)
  rw [frame?, Option.ite_none_right_eq_some, Option.some.injEq, ← FrameNumber.toNat_inj,
    FrameNumber.toNat_ofNat hlt]

theorem frame?_eq_none {e : PageEntry} (h : e.valid = false) : e.frame? = none := by
  simp [frame?, h]

theorem valid_of_frame? {e : PageEntry} {f : FrameNumber} (h : e.frame? = some f) :
    e.valid = true := (frame?_eq_some_iff.mp h).1

/-- Every valid entry has a frame. -/
theorem exists_frame? {e : PageEntry} (h : e.valid = true) : ∃ f, e.frame? = some f :=
  ⟨_, if_pos h⟩

@[simp] theorem frame?_empty : empty.frame? = none := frame?_eq_none (has_empty _)

@[simp] theorem frame?_evicted (e : PageEntry) : e.evicted.frame? = none :=
  frame?_eq_none (by simp [evicted])

/-- The number of a frame that an entry names fits an entry. -/
theorem exists_frameBits? {e : PageEntry} {f : FrameNumber} (h : e.frame? = some f) :
    ∃ v, frameBits? f = some v :=
  ⟨e.frameBits, frameBits?_eq_some_iff.mpr (frame?_eq_some_iff.mp h).2⟩

/-- A resident entry names the frame it was made for. -/
theorem frame?_resident {f : FrameNumber} {v : BitVec 24} (h : frameBits? f = some v)
    (readOnly referenced : Bool) : (resident v readOnly referenced).frame? = some f :=
  frame?_eq_some_iff.mpr ⟨by simp [resident], by simp [resident, frameBits?_eq_some_iff.mp h]⟩

/-- Apart from the valid bit, flags do not matter for the frame. -/
theorem frame?_put {f : EntryFlag} (hf : f ≠ .valid) (e : PageEntry) (b : Bool) :
    (e.put f b).frame? = e.frame? := by
  simp [frame?, Ne.symm hf]

/-! ## Texts -/

/-- All fields of the word. -/
def inspectWord (e : PageEntry) : String :=
  Inspect.record "PageEntryBits"
    [("valid", inspect e.valid), ("read_only", inspect e.readOnly), ("dirty", inspect e.dirty),
      ("referenced", inspect e.referenced), ("os_available", inspect e.system.toNat),
      ("pfn_bits", inspect e.frameBits.toNat)]

/-- The frame, or a dash if the page is not resident. -/
def inspectFrame (e : PageEntry) : String :=
  match e.frame? with
  | some f => inspect f
  | none => Inspect.quoted "-"

instance : Inspect PageEntry where
  inspect e := Inspect.record "PageTableEntry"
    [("pfn", inspectFrame e), ("ro", inspect e.readOnly), ("dirty", inspect e.dirty),
      ("ref", inspect e.referenced)]

end PageEntry

end DemandPaging
