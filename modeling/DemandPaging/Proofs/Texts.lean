import DemandPaging.Kernel.Call

/-!
# Texts

A text goes into memory as its UTF-8 bytes, and a byte of zero ends it. Whoever reads it back as far
as the zero finds the text again, because the reader takes every character that was encoded as one
character, and no byte of a text is zero but that of the character zero.
-/

namespace DemandPaging

/-- The bytes of a text. -/
def textBytes (s : String) : Bytes := s.toUTF8.toList

/-! ## Encoded texts -/

/-- The bytes of an array as a list are those that its loop has yet to collect. -/
theorem toList_loop_eq (bs : ByteArray) (i : Nat) (r : List UInt8) :
    ByteArray.toList.loop bs i r = r.reverse ++ bs.data.toList.drop i := by
  rw [ByteArray.toList.loop]
  split
  · next hi =>
    have hi' : i < bs.data.toList.length := by
      rw [Array.length_toList]
      exact hi
    have hget : bs.get! i = bs.data.toList[i] := by
      rw [Array.getElem_toList]
      exact getElem!_pos bs.data i hi
    rw [toList_loop_eq bs (i + 1), List.reverse_cons, List.append_assoc, hget,
      List.singleton_append, ← List.drop_eq_getElem_cons hi']
  · next hi =>
    rw [List.drop_eq_nil_of_le, List.append_nil]
    rw [Array.length_toList]
    exact Nat.not_lt.mp hi
termination_by bs.size - i

/-- The bytes of a text are those of its characters. -/
theorem textBytes_eq (s : String) : textBytes s = s.toList.flatMap String.utf8EncodeChar := by
  have hbytes : s.toUTF8 = (s.toList.flatMap String.utf8EncodeChar).toByteArray := by
    have hs := congrArg String.toByteArray (String.ofList_toList (s := s))
    rw [String.toByteArray_ofList, List.utf8Encode] at hs
    exact hs.symm
  have hlist := toList_loop_eq s.toUTF8 0 []
  rw [textBytes, ByteArray.toList, hlist, hbytes, List.toList_data_toByteArray]
  rfl

namespace Utf8

/-! ## Reading a character -/

/-- The number of a byte. -/
theorem toNat_ofNat {n : Nat} (h : n < 256) : (UInt8.ofNat n).toNat = n :=
  UInt8.toNat_ofNat_of_lt' h

variable {text : String} {b low high : UInt8} {expected bits : Nat}

/-- A byte below 0x80 is a character. -/
theorem take_ascii (h : b.toNat < 0x80) :
    (⟨.between, text⟩ : Reading).take b = ⟨.between, text.push (Char.ofNat b.toNat)⟩ := by
  have hb : b < 0x80 := UInt8.lt_iff_toNat_lt.mpr h
  simp only [Reading.take, step, start, hb, if_true, List.foldl_cons, List.foldl_nil]

/-- A byte that can begin a character does. -/
theorem take_lead {l : Lead} (h : 0x80 ≤ b.toNat) (hl : lead? b = some l) :
    (⟨.between, text⟩ : Reading).take b = ⟨.inside l.following l.low l.high l.bits, text⟩ := by
  have hb : ¬ b < 0x80 := fun hlt => Nat.not_lt.mpr h (UInt8.lt_iff_toNat_lt.mp hlt)
  simp only [Reading.take, step, start, hb, if_false, hl, List.foldl_nil]

section Following

variable {n : Nat} (hlow : low.toNat ≤ n % 64 + 128) (hhigh : n % 64 + 128 ≤ high.toNat)
include hlow hhigh

/-- A byte that follows lies in the range. -/
theorem mem_range : (low ≤ UInt8.ofNat (n % 64 + 128) ∧ UInt8.ofNat (n % 64 + 128) ≤ high) ∧
    (UInt8.ofNat (n % 64 + 128)).toNat - 0x80 = n % 64 := by
  rw [UInt8.le_iff_toNat_le, UInt8.le_iff_toNat_le, toNat_ofNat (by omega)]
  exact ⟨⟨hlow, hhigh⟩, Nat.add_sub_cancel ..⟩

/-- The last byte of a character completes it. -/
theorem take_last : (⟨.inside 1 low high bits, text⟩ : Reading).take (UInt8.ofNat (n % 64 + 128)) =
    ⟨.between, text.push (Char.ofNat (64 * bits + n % 64))⟩ := by
  obtain ⟨hrange, hbits⟩ := mem_range hlow hhigh
  simp only [Reading.take, step, hrange, and_self, if_true, Nat.le_refl, hbits, List.foldl_cons,
    List.foldl_nil]

/-- A byte inside a character adds six bits. -/
theorem take_following : (⟨.inside (expected + 2) low high bits, text⟩ : Reading).take
    (UInt8.ofNat (n % 64 + 128)) =
      ⟨.inside (expected + 1) 0x80 0xBF (64 * bits + n % 64), text⟩ := by
  obtain ⟨hrange, hbits⟩ := mem_range hlow hhigh
  have hmore : ¬ expected + 2 ≤ 1 := by omega
  simp only [Reading.take, step, hrange, and_self, if_true, hmore, if_false, hbits, List.foldl_nil]
  rfl

end Following

/-- The kinds of first bytes, by their numbers. -/
theorem lead?_ofNat {n : Nat} (h : n < 256) : lead? (UInt8.ofNat n) =
    if n < 0xC2 then none
    else if n ≤ 0xDF then some ⟨1, 0x80, 0xBF, n - 0xC0⟩
    else if n = 0xE0 then some ⟨2, 0xA0, 0xBF, 0⟩
    else if n = 0xED then some ⟨2, 0x80, 0x9F, 0xD⟩
    else if n ≤ 0xEF then some ⟨2, 0x80, 0xBF, n - 0xE0⟩
    else if n = 0xF0 then some ⟨3, 0x90, 0xBF, 0⟩
    else if n ≤ 0xF3 then some ⟨3, 0x80, 0xBF, n - 0xF0⟩
    else if n = 0xF4 then some ⟨3, 0x80, 0x8F, 4⟩
    else none := by
  simp only [lead?, UInt8.lt_iff_toNat_lt, UInt8.le_iff_toNat_le, ← UInt8.toNat_inj, toNat_ofNat h]
  rfl

/-- A first byte of three leaves just the range that its second byte lies in. -/
theorem lead?_three {v : Nat} (hlow : 0x800 ≤ v) (hhigh : v < 0x10000)
    (hc : v < 0xD800 ∨ 0xDFFF < v) :
    ∃ l, lead? (UInt8.ofNat (v / 4096 % 16 + 224)) = some l ∧ l.following = 2 ∧
      l.low.toNat ≤ v / 64 % 64 + 128 ∧ v / 64 % 64 + 128 ≤ l.high.toNat ∧ l.bits = v / 4096 := by
  rw [lead?_ofNat (by omega), if_neg (by omega), if_neg (by omega)]
  by_cases hzero : v / 4096 % 16 + 224 = 0xE0
  · rw [if_pos hzero]
    exact ⟨_, rfl, rfl, show 0xA0 ≤ _ by omega, show _ ≤ 0xBF by omega, show 0 = _ by omega⟩
  · rw [if_neg hzero]
    by_cases hsurrogate : v / 4096 % 16 + 224 = 0xED
    · rw [if_pos hsurrogate]
      exact ⟨_, rfl, rfl, show 0x80 ≤ _ by omega, show _ ≤ 0x9F by omega, show 0xD = _ by omega⟩
    · rw [if_neg hsurrogate, if_pos (by omega)]
      exact ⟨_, rfl, rfl, show 0x80 ≤ _ by omega, show _ ≤ 0xBF by omega,
        show _ - 0xE0 = _ by omega⟩

/-- The same of a first byte of four. -/
theorem lead?_four {v : Nat} (hlow : 0x10000 ≤ v) (hhigh : v < 0x110000) :
    ∃ l, lead? (UInt8.ofNat (v / 262144 % 8 + 240)) = some l ∧ l.following = 3 ∧
      l.low.toNat ≤ v / 4096 % 64 + 128 ∧ v / 4096 % 64 + 128 ≤ l.high.toNat ∧
      l.bits = v / 262144 := by
  rw [lead?_ofNat (by omega), if_neg (by omega), if_neg (by omega), if_neg (by omega),
    if_neg (by omega), if_neg (by omega)]
  by_cases hzero : v / 262144 % 8 + 240 = 0xF0
  · rw [if_pos hzero]
    exact ⟨_, rfl, rfl, show 0x90 ≤ _ by omega, show _ ≤ 0xBF by omega, show 0 = _ by omega⟩
  · rw [if_neg hzero]
    by_cases hmiddle : v / 262144 % 8 + 240 ≤ 0xF3
    · rw [if_pos hmiddle]
      exact ⟨_, rfl, rfl, show 0x80 ≤ _ by omega, show _ ≤ 0xBF by omega,
        show _ - 0xF0 = _ by omega⟩
    · rw [if_neg hmiddle, if_pos (by omega)]
      exact ⟨_, rfl, rfl, show 0x80 ≤ _ by omega, show _ ≤ 0x8F by omega, show 4 = _ by omega⟩

/-- **Every character is read as itself.** -/
theorem take_encode (c : Char) (text : String) :
    (String.utf8EncodeChar c).foldl Reading.take ⟨.between, text⟩ = ⟨.between, text.push c⟩ := by
  have hscalar : c.val.toNat < 0xD800 ∨ 0xDFFF < c.val.toNat ∧ c.val.toNat < 0x110000 := c.valid
  have hchar : Char.ofNat c.val.toNat = c := Char.ofNat_toNat c
  unfold String.utf8EncodeChar
  dsimp only
  generalize c.val.toNat = v at hscalar hchar
  have hlow : ∀ n : Nat, (0x80 : UInt8).toNat ≤ n % 64 + 128 := fun n => Nat.le_add_left ..
  have hhigh : ∀ n : Nat, n % 64 + 128 ≤ (0xBF : UInt8).toNat := fun n => show _ ≤ 0xBF by omega
  split
  · have hb : (UInt8.ofNat v).toNat = v := toNat_ofNat (by omega)
    rw [List.foldl_cons, List.foldl_nil, take_ascii (by omega), hb, hchar]
  · split
    · have hb : (UInt8.ofNat (v / 64 % 32 + 192)).toNat = v / 64 % 32 + 192 :=
        toNat_ofNat (by omega)
      have hl : lead? (UInt8.ofNat (v / 64 % 32 + 192)) =
          some ⟨1, 0x80, 0xBF, v / 64 % 32 + 192 - 0xC0⟩ := by
        rw [lead?_ofNat (by omega), if_neg (by omega), if_pos (by omega)]
      have hv : 64 * (v / 64 % 32 + 192 - 0xC0) + v % 64 = v := by omega
      rw [List.foldl_cons, List.foldl_cons, List.foldl_nil, take_lead (by omega) hl,
        take_last (hlow _) (hhigh _), hv, hchar]
    · split
      · obtain ⟨l, hl, hfollowing, hlow₁, hhigh₁, hbits⟩ :=
          @lead?_three v (by omega) (by omega) (by omega)
        have hb : (UInt8.ofNat (v / 4096 % 16 + 224)).toNat = v / 4096 % 16 + 224 :=
          toNat_ofNat (by omega)
        have hv : 64 * (64 * (v / 4096) + v / 64 % 64) + v % 64 = v := by omega
        rw [List.foldl_cons, List.foldl_cons, List.foldl_cons, List.foldl_nil,
          take_lead (by omega) hl, hfollowing, take_following hlow₁ hhigh₁, hbits,
          take_last (hlow _) (hhigh _), hv, hchar]
      · obtain ⟨l, hl, hfollowing, hlow₁, hhigh₁, hbits⟩ := @lead?_four v (by omega) (by omega)
        have hb : (UInt8.ofNat (v / 262144 % 8 + 240)).toNat = v / 262144 % 8 + 240 :=
          toNat_ofNat (by omega)
        have hv : 64 * (64 * (64 * (v / 262144) + v / 4096 % 64) + v / 64 % 64) + v % 64 = v := by
          omega
        rw [List.foldl_cons, List.foldl_cons, List.foldl_cons, List.foldl_cons, List.foldl_nil,
          take_lead (by omega) hl, hfollowing, take_following hlow₁ hhigh₁, hbits,
          take_following (hlow _) (hhigh _), take_last (hlow _) (hhigh _), hv, hchar]

/-- Characters are read one after the other. -/
theorem foldl_take_encode (cs : List Char) (text : String) :
    (cs.flatMap String.utf8EncodeChar).foldl Reading.take ⟨.between, text⟩ =
      ⟨.between, cs.foldl String.push text⟩ := by
  induction cs generalizing text with
  | nil => rfl
  | cons c cs ih => rw [List.flatMap_cons, List.foldl_append, take_encode, ih, List.foldl_cons]

/-- Characters make up the text that they come from. -/
theorem toList_foldl_push (cs : List Char) (text : String) :
    (cs.foldl String.push text).toList = text.toList ++ cs := by
  induction cs generalizing text with
  | nil => exact (List.append_nil _).symm
  | cons c cs ih => rw [List.foldl_cons, ih, String.toList_push, List.append_assoc]; rfl

/-- **A text is read as itself.** -/
theorem decodeLossy_textBytes (s : String) : decodeLossy (textBytes s) = s := by
  rw [decodeLossy, textBytes_eq, foldl_take_encode, Reading.finish]
  exact String.toList_inj.mp (toList_foldl_push s.toList "")

end Utf8

/-! ## Texts that end with a zero -/

/-- Only the character zero is encoded with a byte of zero. -/
theorem eq_zero_of_mem_encode {c : Char} (h : 0 ∈ String.utf8EncodeChar c) : c = Char.ofNat 0 := by
  have hchar : Char.ofNat c.val.toNat = c := Char.ofNat_toNat c
  have hzero : ∀ n, n < 256 → 0 = UInt8.ofNat n → n = 0 := by
    intro n hn heq
    have htoNat := congrArg UInt8.toNat heq
    rw [Utf8.toNat_ofNat hn] at htoNat
    exact htoNat.symm
  -- every byte of a character of more than one has its highest bit set
  have hhigh : ∀ n, 0x80 ≤ n → n < 256 → 0 ≠ UInt8.ofNat n := by
    intro n hn hlt heq
    have := hzero n hlt heq
    omega
  unfold String.utf8EncodeChar at h
  dsimp only at h
  generalize c.val.toNat = v at h hchar
  split at h
  · rw [hzero v (by omega) (List.mem_singleton.mp h)] at hchar
    exact hchar.symm
  · split at h
    · simp only [List.mem_cons, List.not_mem_nil, or_false] at h
      rcases h with h | h <;> exact absurd h (hhigh _ (by omega) (by omega))
    · split at h
      · simp only [List.mem_cons, List.not_mem_nil, or_false] at h
        rcases h with h | h | h <;> exact absurd h (hhigh _ (by omega) (by omega))
      · simp only [List.mem_cons, List.not_mem_nil, or_false] at h
        rcases h with h | h | h | h <;> exact absurd h (hhigh _ (by omega) (by omega))

/-- A text without the character zero has no byte of zero. -/
theorem zero_not_mem_textBytes {s : String} (h : Char.ofNat 0 ∉ s.toList) : 0 ∉ textBytes s := by
  rw [textBytes_eq, List.mem_flatMap]
  rintro ⟨c, hc, hzero⟩
  exact h (eq_zero_of_mem_encode hzero ▸ hc)

/-- Whatever lies behind the first zero, the bytes in front of it are read. -/
theorem terminatedText?_append {before : Bytes} (h : 0 ∉ before) (rest : Bytes) :
    terminatedText? (before ++ 0 :: rest) = some (Utf8.decodeLossy before) := by
  have hne : ∀ b ∈ before, b ≠ 0 := fun b hb hzero => h (hzero ▸ hb)
  have htake : (before ++ 0 :: rest).takeWhile (· ≠ 0) = before := by
    rw [List.takeWhile_append_of_pos fun b hb => decide_eq_true (hne b hb),
      List.takeWhile_cons_of_neg (by simp), List.append_nil]
  have hcontains : (before ++ 0 :: rest).contains 0 = true := by simp
  rw [terminatedText?, if_pos hcontains, htake]

/-- There is a text if there is a zero. -/
theorem isSome_terminatedText? (bs : Bytes) : (terminatedText? bs).isSome = true ↔ 0 ∈ bs := by
  rw [terminatedText?, ← List.contains_iff_mem]
  cases bs.contains 0 <;> simp

/-- A text is read that has a zero behind it. -/
theorem terminatedText?_textBytes {s : String} (h : Char.ofNat 0 ∉ s.toList) (rest : Bytes) :
    terminatedText? (textBytes s ++ 0 :: rest) = some s := by
  rw [terminatedText?_append (zero_not_mem_textBytes h), Utf8.decodeLossy_textBytes]

/-- Bytes are read as a text if they are those of the text and of the zero behind it. They are read as
no text if they end before the zero. -/
theorem terminatedText?_of_agree {s : String} (h : Char.ofNat 0 ∉ s.toList) {bs : Bytes}
    (hbs : ∀ i < bs.length, i ≤ (textBytes s).length → bs[i]? = (textBytes s ++ [0])[i]?) :
    terminatedText? bs = if (textBytes s).length < bs.length then some s else none := by
  split
  · next hlt =>
    have htake : bs.take ((textBytes s).length + 1) = textBytes s ++ [0] := by
      refine List.ext_getElem? fun i => ?_
      by_cases hi : i < (textBytes s).length + 1
      · rw [List.getElem?_take_of_lt hi, hbs i (by omega) (by omega)]
      · rw [List.getElem?_eq_none (by rw [List.length_take]; omega),
          List.getElem?_eq_none (by rw [List.length_append, List.length_singleton]; omega)]
    rw [← List.take_append_drop ((textBytes s).length + 1) bs, htake, List.append_assoc]
    exact terminatedText?_textBytes h _
  · next hle =>
    refine Option.not_isSome_iff_eq_none.mp fun hsome => ?_
    obtain ⟨i, hi⟩ := List.mem_iff_getElem?.mp ((isSome_terminatedText? bs).mp hsome)
    have hlt := (List.getElem?_eq_some_iff.mp hi).1
    rw [hbs i hlt (by omega), List.getElem?_append_left (by omega)] at hi
    exact zero_not_mem_textBytes h (List.mem_of_getElem? hi)

end DemandPaging
