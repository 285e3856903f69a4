import Mathlib.Logic.ExistsUnique
import DemandPaging.PageEntryField

/-!
# How the word of an entry encodes its fields

A field is a run of binary digits of the word (`PageEntry.field_eq`), and the runs do not meet and
leave no bit out. So the word is the sum of the fields, each times its place value, and words and
tuples of fields correspond one to one (`PageEntry.existsUnique_field_eq`). A call that sets a field
changes no bit outside it (`PageEntry.getLsbD_of_assign?`), and after any number of calls each field
holds what it was set to last (`PageEntry.field_of_assignAll?`).
-/

namespace DemandPaging

namespace PageEntry

variable {e e' : PageEntry} {a : Assignment} {as : List Assignment} {x : EntryField} {i : Nat}

/-! ## Fields as numbers -/

/-- A field is a run of binary digits of the word. -/
theorem field_eq (e : PageEntry) (x : EntryField) :
    e.field x = e.toNat / 2 ^ x.low % 2 ^ x.width := by
  cases x with
  | flag f =>
    rw [field, has, ← BitVec.testBit_toNat, Nat.toNat_testBit]
    rfl
  | system =>
    rw [field, system, BitVec.extractLsb'_toNat, Nat.shiftRight_eq_div_pow]
    rfl
  | frame =>
    rw [field, frameBits, BitVec.extractLsb'_toNat, Nat.shiftRight_eq_div_pow]
    rfl

theorem field_lt (e : PageEntry) (x : EntryField) : e.field x < 2 ^ x.width := by
  rw [field_eq]
  exact Nat.mod_lt _ (Nat.two_pow_pos _)

/-- The number of the word whose fields hold these numbers. -/
def packed (value : EntryField → Nat) : Nat :=
  value (.flag .valid) + 2 * value (.flag .readOnly) + 4 * value (.flag .dirty) +
    8 * value (.flag .referenced) + 16 * value .system + 256 * value .frame

/-- **The word is the sum of its fields**, each times its place value. -/
theorem toNat_eq_packed (e : PageEntry) : e.toNat = packed e.field := by
  have hlt : e.toNat < 2 ^ 32 := e.word.isLt
  simp only [packed, field_eq, EntryField.low, EntryField.width, EntryFlag.bit]
  omega

theorem toNat_inj : e.toNat = e'.toNat ↔ e = e' := by
  cases e
  cases e'
  simp [toNat, BitVec.toNat_inj]

/-- Each field of a sum is read back, if all of them fit. -/
theorem field_ofNat_packed {value : EntryField → Nat} (h : ∀ x, value x < 2 ^ x.width) :
    (ofNat (packed value)).field = value := by
  have hvalid := h (.flag .valid)
  have hreadOnly := h (.flag .readOnly)
  have hdirty := h (.flag .dirty)
  have hreferenced := h (.flag .referenced)
  have hsystem := h .system
  have hframe := h .frame
  simp only [EntryField.width] at *
  funext x
  rw [field_eq, ofNat, toNat, BitVec.toNat_ofNat, packed]
  cases x with
  | flag f => cases f <;> simp only [EntryField.low, EntryField.width, EntryFlag.bit] <;> omega
  | system => simp only [EntryField.low, EntryField.width]; omega
  | frame => simp only [EntryField.low, EntryField.width]; omega

/-- **Words and tuples of fields** correspond one to one. -/
theorem existsUnique_field_eq {value : EntryField → Nat} (h : ∀ x, value x < 2 ^ x.width) :
    ∃! e : PageEntry, e.field = value := by
  refine ⟨ofNat (packed value), field_ofNat_packed h, fun e he => ?_⟩
  rw [← toNat_inj, toNat_eq_packed, toNat_eq_packed, he, field_ofNat_packed h]

/-! ## One call -/

/-- A call that is answered has set its field, which holds the number now, and left all other fields
as they were. -/
theorem field_of_assign? (h : e.assign? a = some e') (x : EntryField) :
    e'.field x = if a.field = x then a.value else e.field x := by
  cases a with
  | flag f b =>
    cases h
    cases x <;>
      grind [field, Assignment.field, Assignment.value, has_put, system_put, frameBits_put]
  | system n =>
    obtain ⟨v, hv, rfl⟩ := Option.map_eq_some_iff.mp h
    rw [systemBits?_eq_some_iff] at hv
    cases x <;> simp [field, Assignment.field, Assignment.value, hv]
  | frame f =>
    obtain ⟨v, hv, rfl⟩ := Option.map_eq_some_iff.mp h
    rw [frameBits?_eq_some_iff] at hv
    cases x <;> simp [field, Assignment.field, Assignment.value, hv]

/-- No bit outside the field changes. -/
theorem getLsbD_of_assign? (h : e.assign? a = some e') (hi : ¬ a.field.Covers i) :
    e'.word.getLsbD i = e.word.getLsbD i := by
  cases a with
  | flag f b =>
    cases h
    have hf := f.bit_lt
    simp only [EntryField.Covers, Assignment.field, EntryField.low, EntryField.width] at hi
    rw [put, getLsbD_putBit _ (by omega), if_neg (by omega)]
  | system n =>
    obtain ⟨v, -, rfl⟩ := Option.map_eq_some_iff.mp h
    rw [withSystem, getLsbD_putField _ _ (by decide)]
    exact if_neg hi
  | frame f =>
    obtain ⟨v, -, rfl⟩ := Option.map_eq_some_iff.mp h
    rw [withFrame, getLsbD_putField _ _ (by decide)]
    exact if_neg hi

/-- A call violates an assertion exactly if its number does not fit the field. -/
theorem assign?_eq_none_iff : e.assign? a = none ↔ ¬ a.Fits := by
  cases a <;> simp [assign?, systemBits?, frameBits?]

/-! ## Any number of calls -/

theorem lastSet?_cons (a : Assignment) (as : List Assignment) (x : EntryField) :
    lastSet? (a :: as) x = (lastSet? as x).or (if a.field = x then some a.value else none) := by
  rw [lastSet?, List.reverse_cons, List.find?_append, Option.map_or, lastSet?]
  split <;> simp [*]

/-- **Any number of calls.** Each field holds what it was set to last, or what it held before. -/
theorem field_of_assignAll? (h : e.assignAll? as = some e') (x : EntryField) :
    e'.field x = (lastSet? as x).getD (e.field x) := by
  induction as generalizing e with
  | nil =>
    cases h
    rfl
  | cons a as ih =>
    obtain ⟨e₁, hfirst, hrest⟩ := Option.bind_eq_some_iff.mp h
    rw [ih hrest, field_of_assign? hfirst, lastSet?_cons, Option.getD_or]
    congr 1
    split <;> rfl

theorem getLsbD_of_assignAll? (h : e.assignAll? as = some e')
    (hi : ∀ a ∈ as, ¬ a.field.Covers i) : e'.word.getLsbD i = e.word.getLsbD i := by
  induction as generalizing e with
  | nil =>
    cases h
    rfl
  | cons a as ih =>
    obtain ⟨e₁, hfirst, hrest⟩ := Option.bind_eq_some_iff.mp h
    rw [List.forall_mem_cons] at hi
    rw [ih hrest hi.2, getLsbD_of_assign? hfirst hi.1]

/-- All calls are answered if all their numbers fit. -/
theorem exists_assignAll? (h : ∀ a ∈ as, a.Fits) : ∃ e', e.assignAll? as = some e' := by
  induction as generalizing e with
  | nil => exact ⟨e, rfl⟩
  | cons a as ih =>
    rw [List.forall_mem_cons] at h
    obtain ⟨e₁, hfirst⟩ := Option.ne_none_iff_exists'.mp fun hnone =>
      assign?_eq_none_iff.mp hnone h.1
    obtain ⟨e', hrest⟩ := ih (e := e₁) h.2
    exact ⟨e', Option.bind_eq_some_iff.mpr ⟨e₁, hfirst, hrest⟩⟩

/-- The entry of a clean page holds what it was made of. -/
theorem field_resident {f : FrameNumber} {v : BitVec 24} (h : frameBits? f = some v)
    (readOnly referenced : Bool) :
    (resident v readOnly referenced).field = residentFields f readOnly referenced := by
  rw [frameBits?_eq_some_iff] at h
  funext x
  cases x with
  | flag g => cases g <;> simp [field, resident, residentFields]
  | system => simp [field, resident, residentFields]
  | frame => simp [field, resident, residentFields, h]

/-! ## Main statement -/

/-- **The word of an entry is a faithful encoding of its fields.** Whatever word one starts with,
after any calls whose numbers fit, each field holds what it was set to last, or else what it held
before, and no bit outside the fields that were set has changed; a call violates an assertion
exactly if its number does not fit. The word is the sum of the fields, each times its place value,
and every tuple of numbers that fit is held by exactly one word. An entry has a frame exactly if it
is valid, namely the one with the number in the word. The entry that is made for a clean page holds
just what it is made of. -/
theorem faithful_encoding :
    (∀ (e : PageEntry) (as : List Assignment), (∀ a ∈ as, a.Fits) →
      ∃ e', e.assignAll? as = some e' ∧ (∀ x, e'.field x = (lastSet? as x).getD (e.field x)) ∧
        ∀ i, (∀ a ∈ as, ¬ a.field.Covers i) → e'.word.getLsbD i = e.word.getLsbD i) ∧
    (∀ (e : PageEntry) (a : Assignment), e.assign? a = none ↔ ¬ a.Fits) ∧
    (∀ e : PageEntry, e.toNat = e.valid.toNat + 2 * e.readOnly.toNat + 4 * e.dirty.toNat +
      8 * e.referenced.toNat + 16 * e.system.toNat + 256 * e.frameBits.toNat) ∧
    (∀ (e : PageEntry) (x : EntryField), e.field x < 2 ^ x.width) ∧
    (∀ value : EntryField → Nat, (∀ x, value x < 2 ^ x.width) → ∃! e : PageEntry, e.field = value) ∧
    (∀ (e : PageEntry) (f : FrameNumber),
      e.frame? = some f ↔ e.valid = true ∧ e.frameBits.toNat = f.toNat) ∧
    (∀ e : PageEntry, e.frame? = none ↔ e.valid = false) ∧
    ∀ (f : FrameNumber) (readOnly referenced : Bool), f.toNat ≤ maxEntryFrame →
      ∃ v, frameBits? f = some v ∧
        (resident v readOnly referenced).field = residentFields f readOnly referenced := by
  refine ⟨fun e as has => ?_, fun e a => assign?_eq_none_iff, toNat_eq_packed, field_lt,
    fun value => existsUnique_field_eq, fun e f => frame?_eq_some_iff, fun e => ?_,
    fun f readOnly referenced hf => ?_⟩
  · obtain ⟨e', he'⟩ := exists_assignAll? (e := e) has
    exact ⟨e', he', field_of_assignAll? he', fun i => getLsbD_of_assignAll? he'⟩
  · simp [frame?]
  · have hbits : frameBits? f = some (BitVec.ofNat 24 f.toNat) := if_pos hf
    exact ⟨_, hbits, field_resident hbits readOnly referenced⟩

/-- The frame is set twice, to numbers with the highest bit, and what lies below it is cleared bit
by bit. -/
def overwrites : List Assignment :=
  [.frame ⟨0x800001⟩, .flag .dirty false, .system 8, .frame ⟨0xFFFFFE⟩, .flag .valid false]

theorem faithful_encoding_overwritten :
    (∀ a ∈ overwrites, a.Fits) ∧
    (∃ e', (ofNat 0xDEADBEEF).assignAll? overwrites = some e' ∧ e'.field .frame = 0xFFFFFE ∧
      e'.field .system = 8 ∧ e'.field (.flag .dirty) = 0 ∧ e'.field (.flag .referenced) = 1 ∧
      e'.word.getLsbD 1 = true) ∧
    (∀ x, residentFields ⟨0xFFFFFF⟩ true false x < 2 ^ x.width) ∧
    (∃! e : PageEntry, e.field = residentFields ⟨0xFFFFFF⟩ true false) ∧
    (FrameNumber.mk 0xFFFFFF).toNat ≤ maxEntryFrame ∧
    (∃ v, frameBits? ⟨0xFFFFFF⟩ = some v ∧
      (resident v true false).field = residentFields ⟨0xFFFFFF⟩ true false) := by
  obtain ⟨hcalls, -, -, -, hunique, -, -, hresident⟩ := faithful_encoding
  have hfits : ∀ a ∈ overwrites, a.Fits := by decide
  have hbelow : ∀ x, residentFields ⟨0xFFFFFF⟩ true false x < 2 ^ x.width := fun x => by
    cases x with
    | flag f => cases f <;> decide
    | system => decide
    | frame => decide
  obtain ⟨e', he', hfield, hbits⟩ := hcalls (ofNat 0xDEADBEEF) overwrites hfits
  refine ⟨hfits, ⟨e', he', ?_, ?_, ?_, ?_, ?_⟩, hbelow, hunique _ hbelow, by decide,
    hresident ⟨0xFFFFFF⟩ true false (by decide)⟩
  · exact (hfield .frame).trans (by decide)
  · exact (hfield .system).trans (by decide)
  · exact (hfield (.flag .dirty)).trans (by decide)
  · exact (hfield (.flag .referenced)).trans (by decide)
  · exact (hbits 1 (by decide)).trans (by decide)

end PageEntry

end DemandPaging
