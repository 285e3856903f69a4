import DemandPaging.Image.Layout

/-!
# Addresses split into pages and offsets

A 32-bit address is a page below `maxProcessPages` and an offset. Joining is the inverse of splitting
(`PageNumber.join?_eq_some_iff`), and seen as numbers the two are division with remainder by the page
size. So the order of addresses is the order of pages and, on one page, of offsets, and the step to
the end of a page is the step to the beginning of the next one. Frames and physical addresses are
related in the same way, except that every frame there is has addresses.
-/

namespace DemandPaging

theorem PageOffset.toNat_inj {o r : PageOffset} : o.toNat = r.toNat ↔ o = r := by
  cases o
  cases r
  simp

/-! ## Virtual addresses -/

namespace VirtualAddress

variable {a b : VirtualAddress} {n : Nat}

theorem toNat_inj : a.toNat = b.toNat ↔ a = b := by
  cases a
  cases b
  simp [toNat, UInt32.toNat_inj]

/-- Splitting is division with remainder. -/
theorem toNat_eq (a : VirtualAddress) : a.toNat = a.page.toNat * pageSize + a.offset.toNat := by
  rw [PageNumber.toNat, toNat_page, toNat_offset, Nat.mul_comm]
  exact (Nat.div_add_mod ..).symm

theorem page_lt (a : VirtualAddress) : a.page.toNat < maxProcessPages := by
  have hlt : a.toNat < wordBound := a.val.toNat_lt
  rw [PageNumber.toNat, toNat_page]
  simp only [pageSize, maxProcessPages, wordBound] at *
  omega

/-- An address is told by its page and its offset. -/
theorem eq_of_split (hpage : a.page = b.page) (hoffset : a.offset = b.offset) : a = b := by
  rw [← toNat_inj, toNat_eq, toNat_eq b, hpage, hoffset]

/-- The order of addresses is that of their pages and, on one page, of their offsets. -/
theorem toNat_lt_toNat_iff : a.toNat < b.toNat ↔
    a.page.toNat < b.page.toNat ∨ a.page = b.page ∧ a.offset.toNat < b.offset.toNat := by
  have ha := a.offset.toNat_lt
  have hb := b.offset.toNat_lt
  rw [toNat_eq a, toNat_eq b, ← PageNumber.toNat_inj]
  simp only [pageSize] at *
  omega

theorem add?_eq_none_iff : a.add? n = none ↔ wordBound ≤ a.toNat + n := by
  rw [add?, ← Nat.not_lt]
  split <;> simp [*]

/-- A step to the end of a page leads to the beginning of the following page, unless there is no
address left. -/
theorem split_of_add?_remaining (h : a.add? a.offset.remaining = some b) :
    a.page.next? = some b.page ∧ b.offset = .zero := by
  have hb : b.toNat = (a.page.toNat + 1) * pageSize := by
    have hlt := a.offset.toNat_lt
    rw [toNat_of_add? h, PageOffset.remaining, toNat_eq a, Nat.succ_mul]
    omega
  have hpage : b.page.toNat = a.page.toNat + 1 := by
    rw [PageNumber.toNat, toNat_page, hb]
    exact Nat.mul_div_cancel _ (by decide)
  constructor
  · have hlt := a.page_lt
    have hnext : a.page.val ≠ 0xFFFFFFFF := fun he => by
      rw [PageNumber.toNat, he] at hlt
      exact absurd hlt (by decide)
    rw [PageNumber.next?, if_neg hnext, Option.some.injEq, ← PageNumber.toNat_inj, hpage,
      PageNumber.toNat, UInt32.toNat_add]
    exact Nat.mod_eq_of_lt (Nat.lt_trans (Nat.add_lt_add_right hlt 1) (by decide))
  · rw [← PageOffset.toNat_inj, toNat_offset, hb]
    exact Nat.mul_mod_left ..

end VirtualAddress

namespace PageNumber

variable {p q : PageNumber} {o r : PageOffset} {a b : VirtualAddress}

/-- The first byte of a page. -/
theorem base?_spec (h : p.base? = some a) :
    a.page = p ∧ a.offset.toNat = 0 ∧ a.toNat = p.toNat * pageSize ∧
      a.toNat + pageSize ≤ wordBound := by
  unfold base? at h
  split at h
  · next hle =>
    cases h
    have hlt : p.val.toNat ≤ 0x3FFFFF := UInt32.le_iff_toNat_le.mp hle
    have htoNat : (⟨p.val <<< .ofNat pageShift⟩ : VirtualAddress).toNat = p.toNat * pageSize := by
      have hshift : (p.val <<< .ofNat pageShift).toNat = p.val.toNat <<< 10 % 2 ^ 32 :=
        UInt32.toNat_shiftLeft ..
      rw [VirtualAddress.toNat, hshift, Nat.shiftLeft_eq]
      exact Nat.mod_eq_of_lt (by omega)
    refine ⟨?_, ?_, htoNat, ?_⟩
    · rw [← PageNumber.toNat_inj, PageNumber.toNat, VirtualAddress.toNat_page, htoNat]
      exact Nat.mul_div_cancel _ (by decide)
    · rw [VirtualAddress.toNat_offset, htoNat]
      exact Nat.mul_mod_left ..
    · rw [htoNat, PageNumber.toNat, pageSize, wordBound]
      omega
  · contradiction

theorem exists_base? (h : p.toNat < maxProcessPages) : ∃ a, p.base? = some a := by
  have hle : p.val ≤ 0x3FFFFF := UInt32.le_iff_toNat_le.mpr (Nat.le_of_lt_succ h)
  exact ⟨_, if_pos hle⟩

/-- The bits of the offset do not meet those of the page, so that joining adds. -/
theorem toNat_of_join? (h : p.join? o = some a) : a.toNat = p.toNat * pageSize + o.toNat := by
  obtain ⟨b, hb, rfl⟩ := Option.map_eq_some_iff.mp h
  obtain ⟨-, -, hbase, -⟩ := base?_spec hb
  have ho : o.toNat < 2 ^ 10 := o.toNat_lt
  have hword : (UInt32.ofNat o.toNat).toNat = o.toNat :=
    Nat.mod_eq_of_lt (Nat.lt_trans ho (by decide))
  rw [VirtualAddress.toNat] at hbase
  rw [VirtualAddress.toNat, UInt32.toNat_or, hbase, hword, Nat.mul_comm]
  exact (Nat.two_pow_add_eq_or_of_lt ho _).symm

theorem exists_join? (h : p.toNat < maxProcessPages) (o : PageOffset) :
    ∃ a, p.join? o = some a := by
  obtain ⟨a, ha⟩ := exists_base? h
  exact ⟨_, congrArg (Option.map _) ha⟩

/-- What was joined splits into the same parts again. -/
theorem split_of_join? (h : p.join? o = some a) : a.page = p ∧ a.offset = o := by
  have ho := o.toNat_lt
  rw [← toNat_inj, toNat, VirtualAddress.toNat_page, ← PageOffset.toNat_inj,
    VirtualAddress.toNat_offset, toNat_of_join? h]
  simp only [pageSize] at *
  omega

/-- **Joining is the inverse of splitting.** -/
theorem join?_eq_some_iff : p.join? o = some a ↔ a.page = p ∧ a.offset = o := by
  refine ⟨split_of_join?, ?_⟩
  rintro ⟨rfl, rfl⟩
  obtain ⟨b, hb⟩ := exists_join? a.page_lt a.offset
  obtain ⟨hpage, hoffset⟩ := split_of_join? hb
  rw [hb, VirtualAddress.eq_of_split hpage hoffset]

end PageNumber

/-! ## Physical addresses -/

namespace PhysicalAddress

theorem toNat_frame (a : PhysicalAddress) : a.frame.toNat = a.toNat / pageSize % wordBound := by
  rw [FrameNumber.toNat, frame, UInt64.toNat_toUInt32, UInt64.toNat_shiftRight]
  exact congrArg (· % wordBound) (Nat.shiftRight_eq_div_pow a.val.toNat 10)

theorem toNat_offset (a : PhysicalAddress) : a.offset.toNat = a.toNat % pageSize := by
  simp only [offset, UInt64.toNat_and]
  exact Nat.and_two_pow_sub_one_eq_mod a.val.toNat 10

end PhysicalAddress

namespace FrameNumber

variable {f g : FrameNumber} {o r : PageOffset}

/-- No frame lies so far up that its addresses do not fit their word. -/
theorem toNat_join (f : FrameNumber) (o : PageOffset) :
    (f.join o).toNat = f.toNat * pageSize + o.toNat := by
  have hf : f.val.toNat < 2 ^ 32 := f.val.toNat_lt
  have ho : o.toNat < 2 ^ 10 := o.toNat_lt
  have hbase : f.base.val.toNat = f.toNat * pageSize := by
    rw [base, UInt64.toNat_mul, UInt32.toNat_toUInt64]
    exact Nat.mod_eq_of_lt (by simp; omega)
  have hword : (UInt64.ofNat o.toNat).toNat = o.toNat :=
    Nat.mod_eq_of_lt (Nat.lt_trans ho (by decide))
  rw [join, PhysicalAddress.toNat, UInt64.toNat_add, hbase, hword]
  refine Nat.mod_eq_of_lt ?_
  rw [toNat, pageSize]
  omega

theorem frame_join (f : FrameNumber) (o : PageOffset) : (f.join o).frame = f := by
  have hf : f.toNat < wordBound := f.val.toNat_lt
  have ho := o.toNat_lt
  rw [← toNat_inj, PhysicalAddress.toNat_frame, toNat_join]
  simp only [pageSize, wordBound] at *
  omega

theorem offset_join (f : FrameNumber) (o : PageOffset) : (f.join o).offset = o := by
  rw [← PageOffset.toNat_inj, PhysicalAddress.toNat_offset, toNat_join, Nat.mul_add_mod_self_right]
  exact Nat.mod_eq_of_lt o.toNat_lt

theorem join_inj : f.join o = g.join r ↔ f = g ∧ o = r := by
  refine ⟨fun h => ⟨?_, ?_⟩, ?_⟩
  · rw [← frame_join f o, h, frame_join]
  · rw [← offset_join f o, h, offset_join]
  · rintro ⟨rfl, rfl⟩
    rfl

end FrameNumber

/-! ## All together -/

/-- **Splitting addresses is a bijection that agrees with their arithmetic.** -/
theorem addresses_split :
    (∀ a : VirtualAddress, a.page.join? a.offset = some a ∧
      a.toNat = a.page.toNat * pageSize + a.offset.toNat) ∧
      (∀ (p : PageNumber) (o : PageOffset), p.toNat < maxProcessPages →
        ∃ a, p.join? o = some a ∧ a.page = p ∧ a.offset = o) ∧
      (∀ (p q : PageNumber) (o r : PageOffset) (a b : VirtualAddress),
        p.join? o = some a → q.join? r = some b →
          (a.toNat < b.toNat ↔ p.toNat < q.toNat ∨ p = q ∧ o.toNat < r.toNat)) ∧
      (∀ (a : VirtualAddress) (n : Nat), n ≤ a.offset.remaining →
        (a.add? n = none ↔ wordBound ≤ a.toNat + n) ∧
          ∀ b, a.add? n = some b →
            if n < a.offset.remaining then b.page = a.page ∧ b.offset.toNat = a.offset.toNat + n
            else a.page.next? = some b.page ∧ b.offset = .zero) ∧
      (∀ (f : FrameNumber) (o : PageOffset),
        (f.join o).toNat = f.toNat * pageSize + o.toNat ∧ (f.join o).frame = f ∧
          (f.join o).offset = o) ∧
      ∀ (f g : FrameNumber) (o r : PageOffset), f.join o = g.join r ↔ f = g ∧ o = r := by
  refine ⟨fun a => ⟨PageNumber.join?_eq_some_iff.mpr ⟨rfl, rfl⟩, a.toNat_eq⟩, fun p o hp => ?_,
    fun p q o r a b ha hb => ?_, fun a n hn => ⟨VirtualAddress.add?_eq_none_iff, fun b hb => ?_⟩,
    fun f o => ⟨f.toNat_join o, f.frame_join o, f.offset_join o⟩, fun f g o r => FrameNumber.join_inj⟩
  · obtain ⟨a, ha⟩ := PageNumber.exists_join? hp o
    exact ⟨a, ha, PageNumber.split_of_join? ha⟩
  · obtain ⟨rfl, rfl⟩ := PageNumber.split_of_join? ha
    obtain ⟨rfl, rfl⟩ := PageNumber.split_of_join? hb
    exact VirtualAddress.toNat_lt_toNat_iff
  · split
    · next hlt =>
      rw [PageOffset.remaining] at hlt
      exact VirtualAddress.page_offset_of_toNat (VirtualAddress.toNat_of_add? hb) (by omega)
    · next hlt =>
      obtain rfl : n = a.offset.remaining := by omega
      exact VirtualAddress.split_of_add?_remaining hb

/-- The last byte of page 0, the first of page 1, and the last address of all. -/
theorem addresses_split_edges :
    let last : PageOffset := ⟨1023, by decide⟩
    (PageNumber.mk 0x3FFFFF).toNat < maxProcessPages ∧
      (∃ a, (PageNumber.mk 0x3FFFFF).join? last = some a ∧ a.page = ⟨0x3FFFFF⟩ ∧ a.offset = last) ∧
      (PageNumber.mk 0).join? last = some ⟨1023⟩ ∧ (PageNumber.mk 1).join? .zero = some ⟨1024⟩ ∧
      ((VirtualAddress.mk 1023).toNat < (VirtualAddress.mk 1024).toNat ↔
        (PageNumber.mk 0).toNat < (PageNumber.mk 1).toNat ∨
          PageNumber.mk 0 = ⟨1⟩ ∧ last.toNat < PageOffset.zero.toNat) ∧
      1 ≤ (VirtualAddress.mk 1023).offset.remaining ∧
      (VirtualAddress.mk 1023).add? 1 = some ⟨1024⟩ ∧
      (VirtualAddress.mk 1023).page.next? = some (VirtualAddress.mk 1024).page ∧
      1 ≤ (VirtualAddress.mk 0xFFFFFFFF).offset.remaining ∧
      ((VirtualAddress.mk 0xFFFFFFFF).add? 1 = none ↔
        wordBound ≤ (VirtualAddress.mk 0xFFFFFFFF).toNat + 1) := by
  obtain ⟨-, hjoin, horder, hstep, -⟩ := addresses_split
  have hlast : (PageNumber.mk 0).join? ⟨1023, by decide⟩ = some ⟨1023⟩ := by decide
  have hfirst : (PageNumber.mk 1).join? .zero = some ⟨1024⟩ := by decide
  have hadd : (VirtualAddress.mk 1023).add? 1 = some ⟨1024⟩ := by decide
  have hnext := (hstep ⟨1023⟩ 1 (by decide)).2 ⟨1024⟩ hadd
  rw [if_neg (by decide)] at hnext
  exact ⟨by decide, hjoin ⟨0x3FFFFF⟩ ⟨1023, by decide⟩ (by decide), hlast, hfirst,
    horder ⟨0⟩ ⟨1⟩ ⟨1023, by decide⟩ .zero ⟨1023⟩ ⟨1024⟩ hlast hfirst, by decide, hadd, hnext.1,
    by decide, (hstep ⟨0xFFFFFFFF⟩ 1 (by decide)).1⟩

end DemandPaging
