import DemandPaging.PageTableOperation

/-!
# Laws of page tables

The resident pages are a list in closed form (`PageTable.collectBelow_eq`): strictly ascending, and of
exactly those pages that are mapped.

A page table may be in the hands of any client. `PageTable.Does` lists all that can come of a call, and
taken statement by statement a call comes to the same (`Operation.call_eq`). So one call changes one
entry at most, and none if it fails. Entries that are not valid are blank but for the read-only bit
(`PageEntry.Blank`), and since this holds of all entries that were ever given out, it is kept when old
entries are put back on any page (`PageTable.History.blank`).
-/

namespace DemandPaging

namespace PageTable

variable {t t' : PageTable} {p q : PageNumber} {e e' : PageEntry} {f : FrameNumber}

/-! ## Entries -/

theorem setEntry_self (he : t.get? p = some e) : t.setEntry p e = t := by
  obtain ⟨hlt, hget⟩ := Array.getElem?_eq_some_iff.mp he
  rw [setEntry, Array.setIfInBounds, dif_pos hlt, ← hget, Array.set_getElem_self]

theorem setEntry_setEntry (t : PageTable) (p : PageNumber) (e e' : PageEntry) :
    (t.setEntry p e).setEntry p e' = t.setEntry p e' := by
  simp only [setEntry, Array.setIfInBounds_setIfInBounds]

/-- An entry that is put back is as it was. -/
theorem setEntry_setEntry_self (he : t.get? p = some e) (e' : PageEntry) :
    (t.setEntry p e').setEntry p e = t := by
  rw [setEntry_setEntry, setEntry_self he]

theorem contains_iff : t.contains p = true ↔ ∃ e, t.get? p = some e := by
  rw [← isSome_get?, Option.isSome_iff_exists]

/-! ## The resident pages -/

/-- What is collected, as a list. -/
theorem collectBelow_eq {α : Type} (t : PageTable) (value : PageEntry → Option α) (n : Nat)
    (acc : List (PageNumber × α)) : t.collectBelow value n acc =
      (List.range n).filterMap
        (fun i => (t.entries[i]?.bind value).map (PageNumber.ofNat i, ·)) ++ acc := by
  induction n generalizing acc with
  | zero => rfl
  | succ n ih =>
    rw [List.range_succ, List.filterMap_append, collectBelow]
    cases h : t.entries[n]?.bind value <;>
      simp only [ih, List.filterMap_cons, List.filterMap_nil, h, Option.map_none, Option.map_some,
        List.append_nil, List.append_assoc, List.singleton_append]

theorem resident_eq (t : PageTable) : t.resident = (List.range t.size).filterMap
    fun i => (t.entries[i]?.bind PageEntry.frame?).map (PageNumber.ofNat i, ·) := by
  rw [resident, collectBelow_eq, List.append_nil]

/-- A page is listed as resident exactly with the frame that it is mapped to. -/
theorem mem_resident_iff (ht : t.size ≤ wordBound) :
    (p, f) ∈ t.resident ↔ t.translate? p = some f := by
  simp only [resident_eq, List.mem_filterMap, List.mem_range, Option.map_eq_some_iff, Prod.mk.injEq]
  constructor
  · rintro ⟨i, hi, g, hg, rfl, rfl⟩
    rw [translate?, get?, PageNumber.toNat_ofNat (Nat.lt_of_lt_of_le hi ht)]
    exact hg
  · intro h
    obtain ⟨e, he, -⟩ := Option.bind_eq_some_iff.mp h
    have hlt : p.toNat < t.size := (Array.getElem?_eq_some_iff.mp he).1
    exact ⟨p.toNat, hlt, f, h, p.ofNat_toNat, rfl⟩

/-- The resident pages are listed in ascending order, each of them once. -/
theorem ascending_resident (ht : t.size ≤ wordBound) :
    t.resident.Pairwise fun x y => x.1.toNat < y.1.toNat := by
  rw [resident_eq, List.pairwise_filterMap]
  refine List.pairwise_lt_range.imp_of_mem fun {i j} hi hj hij x hx y hy => ?_
  obtain ⟨-, -, rfl⟩ := Option.map_eq_some_iff.mp hx
  obtain ⟨-, -, rfl⟩ := Option.map_eq_some_iff.mp hy
  rwa [PageNumber.toNat_ofNat (Nat.lt_of_lt_of_le (List.mem_range.mp hi) ht),
    PageNumber.toNat_ofNat (Nat.lt_of_lt_of_le (List.mem_range.mp hj) ht)]

theorem isSome_frame? (e : PageEntry) : e.frame?.isSome = e.valid := by
  rw [PageEntry.frame?]
  split <;> simp [*]

/-- All entries, by their positions. -/
theorem map_getElem?_range (t : PageTable) :
    (List.range t.size).map (t.entries[·]?) = t.entries.toList.map some := by
  refine List.ext_getElem? fun i => ?_
  by_cases hi : i < t.entries.size <;> simp [size, hi]

/-- As many pages are listed as have valid entries. -/
theorem length_resident (t : PageTable) : t.resident.length = t.residentCount := by
  have hvalid : ∀ i, ((t.entries[i]?.bind PageEntry.frame?).map (PageNumber.ofNat i, ·)).isSome =
      t.entries[i]?.any PageEntry.valid := fun i => by
    cases t.entries[i]? <;> simp [isSome_frame?]
  calc t.resident.length
      = (List.range t.size).countP fun i => t.entries[i]?.any PageEntry.valid := by
        rw [resident_eq, List.length_filterMap_eq_countP]
        simp only [hvalid]
    _ = ((List.range t.size).map (t.entries[·]?)).countP (Option.any PageEntry.valid) := by
        rw [List.countP_map]
        rfl
    _ = t.residentCount := by
        rw [map_getElem?_range, List.countP_map, residentCount, ← Array.countP_toList]
        rfl

/-! ## Blank entries -/

end PageTable

/-- An entry that is not valid has no bit set but that of read-only pages. -/
def PageEntry.Blank (e : PageEntry) : Prop :=
  e.valid = false → ∀ i, e.word.getLsbD i = true → i = EntryFlag.readOnly.bit

namespace PageEntry

variable {e : PageEntry}

theorem Blank.of_valid (h : e.valid = true) : e.Blank := fun hinvalid =>
  absurd (h.symm.trans hinvalid) nofun

theorem getLsbD_put (e : PageEntry) (f : EntryFlag) (b : Bool) (i : Nat) :
    (e.put f b).word.getLsbD i = if i = f.bit then b else e.word.getLsbD i :=
  getLsbD_putBit _ (Nat.lt_trans f.bit_lt (by decide)) ..

theorem blank_empty : empty.Blank := fun _ i hi => by simp [empty] at hi

/-- The read-only bit is the one that may be set. -/
theorem Blank.put_readOnly (h : e.Blank) (b : Bool) : (e.put .readOnly b).Blank := by
  intro hvalid i hi
  have hold : e.valid = false := by simpa using hvalid
  rw [getLsbD_put] at hi
  split at hi
  · assumption
  · exact h hold i hi

theorem blank_evicted (e : PageEntry) : e.evicted.Blank := blank_empty.put_readOnly _

theorem valid_resident (v : BitVec 24) (readOnly referenced : Bool) :
    (resident v readOnly referenced).valid = true := by simp [resident]

/-- The entry of a resident page after an access. -/
def accessed (e : PageEntry) (write : Bool) : PageEntry :=
  if write then (e.put .referenced true).put .dirty true else e.put .referenced true

theorem valid_accessed (e : PageEntry) (write : Bool) : (e.accessed write).valid = e.valid := by
  cases write <;> simp [accessed]

theorem readOnly_accessed (e : PageEntry) (write : Bool) :
    (e.accessed write).readOnly = e.readOnly := by
  cases write <;> simp [accessed]

theorem dirty_accessed (e : PageEntry) (write : Bool) :
    (e.accessed write).dirty = (write || e.dirty) := by
  cases write <;> simp [accessed]

theorem frame?_accessed (e : PageEntry) (write : Bool) : (e.accessed write).frame? = e.frame? := by
  have hput : (e.put .referenced true).frame? = e.frame? := frame?_put EntryFlag.noConfusion e true
  cases write with
  | false => exact hput
  | true => exact (frame?_put EntryFlag.noConfusion _ true).trans hput

end PageEntry

namespace PageTable

variable {t t' : PageTable} {p q : PageNumber} {e e' : PageEntry} {f : FrameNumber}
  {op : Operation} {reply : Reply} {stop : Stop PageTableError}

/-! ## What each function does -/

/-- The page is resident, or the table has no valid entry for it. -/
theorem valid_cases (t : PageTable) (p : PageNumber) :
    (∃ e, t.get? p = some e ∧ e.valid = true) ∨ ∀ e, t.get? p = some e → e.valid = false := by
  cases he : t.get? p with
  | none => exact Or.inr nofun
  | some e =>
    cases hvalid : e.valid with
    | true => exact Or.inl ⟨e, rfl, hvalid⟩
    | false => exact Or.inr fun e' he' => Option.some.inj he' ▸ hvalid

theorem install_eq_ok_iff {referenced : Bool} : t.install p f referenced = .ok t' ↔
    ∃ e v, t.get? p = some e ∧ e.valid = false ∧ PageEntry.frameBits? f = some v ∧
      t' = t.setEntry p (.resident v e.readOnly referenced) := by
  unfold install
  constructor
  · intro h
    split at h
    · cases h
    · next v hv =>
      split at h
      · cases h
      · next e he =>
        split at h
        · cases h
        · next hvalid =>
          cases h
          exact ⟨e, v, he, Bool.eq_false_iff.mpr hvalid, hv, rfl⟩
  · rintro ⟨e, v, he, hvalid, hv, rfl⟩
    simp only [hv, he, hvalid, Bool.false_eq_true, if_false]

/-- The entry of a resident page loses its frame. -/
theorem invalidate_of_valid (he : t.get? p = some e) (hvalid : e.valid = true) :
    t.invalidate p = (some e, t.setEntry p e.evicted) := by
  simp only [invalidate, he, hvalid, if_true]

theorem invalidate_of_invalid (h : ∀ e, t.get? p = some e → e.valid = false) :
    t.invalidate p = (t.get? p, t) := by
  unfold invalidate
  cases he : t.get? p with
  | none => rfl
  | some e => simp only [h e he, Bool.false_eq_true, if_false]

/-- An access marks the entry of a resident page. -/
theorem markAccess_of_valid (he : t.get? p = some e) (hvalid : e.valid = true) (write : Bool) :
    t.markAccess p write = t.setEntry p (e.accessed write) := by
  simp only [markAccess, he, hvalid, if_true, PageEntry.accessed]

theorem markAccess_of_invalid (h : ∀ e, t.get? p = some e → e.valid = false) (write : Bool) :
    t.markAccess p write = t := by
  unfold markAccess
  cases he : t.get? p with
  | none => rfl
  | some e => simp only [h e he, Bool.false_eq_true, if_false]

theorem size_invalidate (t : PageTable) (p : PageNumber) : (t.invalidate p).2.size = t.size := by
  rcases t.valid_cases p with ⟨e, he, hvalid⟩ | hinvalid
  · rw [invalidate_of_valid he hvalid]
    exact size_setEntry ..
  · rw [invalidate_of_invalid hinvalid]

theorem size_markAccess (t : PageTable) (p : PageNumber) (write : Bool) :
    (t.markAccess p write).size = t.size := by
  rcases t.valid_cases p with ⟨e, he, hvalid⟩ | hinvalid
  · rw [markAccess_of_valid he hvalid]
    exact size_setEntry ..
  · rw [markAccess_of_invalid hinvalid]

/-! ## What can come of a call -/

/-- All that can come of a call. -/
inductive Does (t : PageTable) : Operation → Except (Stop PageTableError) (Reply × PageTable) → Prop
  | read {p : PageNumber} : t.Does (.entry p) (.ok (.entry (t.get? p), t))
  | installed {p : PageNumber} {f : FrameNumber} {referenced : Bool} {v : BitVec 24} {e : PageEntry}
      (entry : t.get? p = some e) (invalid : e.valid = false) (bits : PageEntry.frameBits? f = some v) :
      t.Does (.install p f referenced) (.ok (.done, t.setEntry p (.resident v e.readOnly referenced)))
  | invalidated {p : PageNumber} {e : PageEntry} (entry : t.get? p = some e) (valid : e.valid = true) :
      t.Does (.invalidate p) (.ok (.entry (some e), t.setEntry p e.evicted))
  | spared {p : PageNumber} (invalid : ∀ e, t.get? p = some e → e.valid = false) :
      t.Does (.invalidate p) (.ok (.entry (t.get? p), t))
  | restored {p : PageNumber} {e old : PageEntry} (entry : t.get? p = some old) :
      t.Does (.restore p e) (.ok (.done, t.setEntry p e))
  | marked {p : PageNumber} {write : Bool} {e : PageEntry} (entry : t.get? p = some e)
      (valid : e.valid = true) :
      t.Does (.markAccess p write) (.ok (.done, t.setEntry p (e.accessed write)))
  | ignored {p : PageNumber} {write : Bool} (invalid : ∀ e, t.get? p = some e → e.valid = false) :
      t.Does (.markAccess p write) (.ok (.done, t))
  | flagged {p : PageNumber} {b : Bool} {e : PageEntry} (entry : t.get? p = some e) :
      t.Does (.setReadOnly p b) (.ok (.done, t.setEntry p (e.put .readOnly b)))
  | refused {op : Operation} {stop : Stop PageTableError} : t.Does op (.error stop)

theorem does (t : PageTable) (op : Operation) : t.Does op (op.apply t) := by
  cases op with
  | entry p => exact .read
  | install p f referenced =>
    cases hinstall : t.install p f referenced with
    | error stop =>
      rw [Operation.apply, hinstall]
      exact .refused
    | ok t' =>
      obtain ⟨e, v, he, hvalid, hbits, rfl⟩ := install_eq_ok_iff.mp hinstall
      rw [Operation.apply, hinstall]
      exact .installed he hvalid hbits
  | invalidate p =>
    rcases t.valid_cases p with ⟨e, he, hvalid⟩ | hinvalid
    · rw [Operation.apply, invalidate_of_valid he hvalid]
      exact .invalidated he hvalid
    · rw [Operation.apply, invalidate_of_invalid hinvalid]
      exact .spared hinvalid
  | restore p e =>
    simp only [Operation.apply, restore]
    split
    · next hcontains =>
      obtain ⟨old, hold⟩ := contains_iff.mp hcontains
      exact .restored hold
    · exact .refused
  | markAccess p write =>
    rcases t.valid_cases p with ⟨e, he, hvalid⟩ | hinvalid
    · rw [Operation.apply, markAccess_of_valid he hvalid]
      exact .marked he hvalid
    · rw [Operation.apply, markAccess_of_invalid hinvalid]
      exact .ignored hinvalid
  | setReadOnly p b =>
    simp only [Operation.apply, setReadOnly]
    cases hentry : t.get? p with
    | none => exact .refused
    | some e => exact .flagged hentry

/-- The outcome of a call that changes nothing if it ends without an answer. -/
def settle (t : PageTable) : Except (Stop PageTableError) (Reply × PageTable) →
    Except (Stop PageTableError) Reply × PageTable
  | .ok (reply, t') => (.ok reply, t')
  | .error stop => (.error stop, t)

/-- **A call statement by statement.** Nothing fails after a statement that has changed something. -/
theorem Operation.call_eq (op : Operation) (t : PageTable) : op.call t = t.settle (op.apply t) := by
  cases op with
  | entry p => rfl
  | install p f referenced =>
    simp only [call, perform, apply, PageTable.install, slot, put]
    cases PageEntry.frameBits? f with
    | none => rfl
    | some v =>
      simp only [EStateM.run_bind, EStateM.run_get]
      cases t.get? p with
      | none => rfl
      | some e => cases hvalid : e.valid <;> simp only [EStateM.run_pure, hvalid] <;> rfl
  | invalidate p =>
    simp only [call, perform, apply, PageTable.invalidate, put, EStateM.run_bind, EStateM.run_get]
    cases t.get? p with
    | none => rfl
    | some e => cases hvalid : e.valid <;> simp only [hvalid] <;> rfl
  | restore p e =>
    simp only [call, perform, apply, PageTable.restore, slot, put, EStateM.run_bind, EStateM.run_get,
      ← isSome_get?]
    cases t.get? p <;> rfl
  | markAccess p write =>
    simp only [call, perform, apply, PageTable.markAccess, put, EStateM.run_bind, EStateM.run_get]
    cases t.get? p with
    | none => rfl
    | some e =>
      cases hvalid : e.valid with
      | false =>
        simp only [hvalid]
        rfl
      | true =>
        cases write with
        | false =>
          simp only [hvalid]
          rfl
        | true =>
          simp only [hvalid, if_true]
          exact congrArg (Prod.mk (Except.ok Reply.done)) (setEntry_setEntry ..)
  | setReadOnly p b =>
    simp only [call, perform, apply, PageTable.setReadOnly, slot, put, EStateM.run_bind, EStateM.run_get]
    cases t.get? p <;> rfl

/-- A call that is answered. -/
theorem does_of_call (h : op.call t = (.ok reply, t')) : t.Does op (.ok (reply, t')) := by
  have hdoes := t.does op
  rw [op.call_eq] at h
  cases happly : op.apply t with
  | ok done =>
    rw [happly] at h hdoes
    cases h
    exact hdoes
  | error stop =>
    rw [happly] at h
    cases h

/-- **A call without an answer** has changed nothing. -/
theorem eq_of_call_error (h : op.call t = (.error stop, t')) : t' = t := by
  rw [op.call_eq] at h
  cases happly : op.apply t with
  | ok done =>
    rw [happly] at h
    cases h
  | error stop =>
    rw [happly] at h
    cases h
    rfl

/-! ## One call -/

/-- No entry is changed but that of the page of the call. -/
theorem eq_or_setEntry_of_call {outcome : Except (Stop PageTableError) Reply}
    (h : op.call t = (outcome, t')) : t' = t ∨ ∃ e, t' = t.setEntry op.page e := by
  cases outcome with
  | error stop => exact Or.inl (eq_of_call_error h)
  | ok reply =>
    cases does_of_call h with
    | read | spared | ignored => exact Or.inl rfl
    | installed | invalidated | restored | marked | flagged => exact Or.inr ⟨_, rfl⟩

/-- Only `restore` and `setReadOnly` can make a page read-only or writable. -/
theorem readOnly_of_call {outcome : Except (Stop PageTableError) Reply}
    (h : op.call t = (outcome, t')) (hrestore : ∀ p e, op ≠ .restore p e)
    (hset : ∀ p b, op ≠ .setReadOnly p b) (q : PageNumber) :
    (t'.get? q).map PageEntry.readOnly = (t.get? q).map PageEntry.readOnly := by
  have hkeep : ∀ {p e e'}, t.get? p = some e → e'.readOnly = e.readOnly →
      ((t.setEntry p e').get? q).map PageEntry.readOnly = (t.get? q).map PageEntry.readOnly :=
    fun {p e e'} he hro => by
      rw [get?_setEntry]
      split
      · next hq => rw [hq, he, Option.map_some, Option.map_some, Option.map_some, hro]
      · rfl
  cases outcome with
  | error stop => rw [eq_of_call_error h]
  | ok reply =>
    cases does_of_call h with
    | read | spared | ignored => rfl
    | installed entry => exact hkeep entry (PageEntry.readOnly_resident ..)
    | invalidated entry => exact hkeep entry (PageEntry.readOnly_evicted _)
    | marked entry => exact hkeep entry (PageEntry.readOnly_accessed ..)
    | restored => exact absurd rfl (hrestore _ _)
    | flagged => exact absurd rfl (hset _ _)

/-- **What was dropped can be put back**, and then the table is what it was. -/
theorem restore_invalidate (he : t.get? p = some e) :
    ∃ t', (Operation.invalidate p).call t = (.ok (.entry (some e)), t') ∧
      (Operation.restore p e).call t' = (.ok .done, t) := by
  have hback : ∀ t' : PageTable, t'.contains p = true → t'.setEntry p e = t →
      (Operation.restore p e).call t' = (.ok .done, t) := fun t' hcontains hset => by
    rw [Operation.call_eq, Operation.apply, restore, if_pos hcontains, hset]
    rfl
  have hcontains : t.contains p = true := contains_iff.mpr ⟨e, he⟩
  rw [Operation.call_eq, Operation.apply, invalidate, he]
  refine ⟨_, rfl, ?_⟩
  dsimp only
  split
  · refine hback _ ?_ (setEntry_setEntry_self he _)
    rw [← isSome_get?, get?_setEntry, if_pos rfl, he]
    rfl
  · exact hback t hcontains (setEntry_self he)

/-! ## Any number of calls -/

/-- All entries that are in the table, or were given out, are blank if they are not valid. -/
structure Tidy (past : List Record) (t : PageTable) : Prop where
  held : ∀ p e, t.get? p = some e → e.Blank
  given : ∀ e ∈ given past, e.Blank

variable {past : List Record} {n : Nat}

theorem given_append (past : List Record) (r : Record) :
    given (past ++ [r]) = given past ++ r.given?.toList := by
  rw [given, List.filterMap_append]
  cases h : r.given? <;> simp [given, h]

/-- A blank entry takes the place of another. -/
theorem Tidy.setEntry (h : Tidy past t) (he : e.Blank) : Tidy past (t.setEntry p e) where
  held q e' hq := by
    rw [get?_setEntry] at hq
    split at hq
    · obtain ⟨-, -, rfl⟩ := Option.map_eq_some_iff.mp hq
      exact he
    · exact h.held q e' hq
  given := h.given

/-- A call that was made, with what it gave out. -/
theorem Tidy.append {r : Record} (h : Tidy past t) (hr : ∀ e, r.given? = some e → e.Blank) :
    Tidy (past ++ [r]) t where
  held := h.held
  given e he := by
    rw [given_append, List.mem_append, Option.mem_toList] at he
    exact he.elim (h.given e) (hr e)

/-- **One call** keeps the entries tidy. -/
theorem Tidy.call {outcome : Except (Stop PageTableError) Reply} (h : Tidy past t)
    (known : op.Known past) (hcall : op.call t = (outcome, t')) :
    Tidy (past ++ [⟨op, outcome⟩]) t' := by
  cases outcome with
  | error stop =>
    rw [eq_of_call_error hcall]
    exact h.append nofun
  | ok reply =>
    cases does_of_call hcall with
    | read | spared => exact h.append fun e he => h.held _ e he
    | installed => exact (h.setEntry (.of_valid (PageEntry.valid_resident ..))).append nofun
    | invalidated entry valid =>
      refine (h.setEntry (PageEntry.blank_evicted _)).append fun e he => ?_
      cases he
      exact h.held _ _ entry
    | restored => exact (h.setEntry (h.given _ known)).append nofun
    | marked entry valid =>
      exact (h.setEntry (.of_valid ((PageEntry.valid_accessed ..).trans valid))).append nofun
    | ignored => exact h.append nofun
    | flagged entry => exact (h.setEntry ((h.held _ _ entry).put_readOnly _)).append nofun

theorem History.tidy (h : History (.ofPages n) past t) : Tidy past t := by
  induction h with
  | start =>
    refine ⟨fun p e he => ?_, nofun⟩
    rw [get?_ofPages, Option.ite_none_right_eq_some] at he
    exact Option.some.inj he.2 ▸ PageEntry.blank_empty
  | call _ known hcall ih => exact ih.call known hcall

/-- The number of pages never changes. -/
theorem History.size_eq (h : History (.ofPages n) past t) : t.size = n := by
  induction h with
  | start => simp [ofPages, size]
  | call _ _ hcall ih =>
    rcases eq_or_setEntry_of_call hcall with rfl | ⟨e, rfl⟩
    · exact ih
    · rw [size_setEntry, ih]

/-! ## Main statement -/

/-- **Laws of page tables.** After any sequence of calls for any pages, in which entries that were given
out are put back anywhere, and failed calls included: a call leaves the entry of every other page as it
was, and one that fails or violates an assertion leaves all entries as they were, although it is taken
statement by statement; so it comes to the same as the function of the table. An entry that was dropped
can be put back, and then the table is what it was. No call but `restore` and `setReadOnly` touches a
read-only bit. An entry that is not valid has no other bit set. The resident pages are listed in strictly
ascending order, exactly those that are mapped, and as many as are counted. -/
theorem History.laws (h : History (.ofPages n) past t) (hn : n ≤ wordBound) :
    t.size = n ∧
    (∀ (op : Operation) outcome t', op.call t = (outcome, t') →
      ∀ q, q ≠ op.page → t'.get? q = t.get? q) ∧
    (∀ (op : Operation) stop t', op.call t = (.error stop, t') → t' = t) ∧
    (∀ op : Operation, op.call t = t.settle (op.apply t)) ∧
    (∀ p e, t.get? p = some e →
      ∃ t', (Operation.invalidate p).call t = (.ok (.entry (some e)), t') ∧
        (Operation.restore p e).call t' = (.ok .done, t)) ∧
    (∀ (op : Operation) outcome t', op.call t = (outcome, t') → (∀ p e, op ≠ .restore p e) →
      (∀ p b, op ≠ .setReadOnly p b) →
        ∀ q, (t'.get? q).map PageEntry.readOnly = (t.get? q).map PageEntry.readOnly) ∧
    (∀ p e, t.get? p = some e → e.Blank) ∧
    t.resident.Pairwise (fun x y => x.1.toNat < y.1.toNat) ∧
    (∀ p f, (p, f) ∈ t.resident ↔ t.translate? p = some f) ∧
    t.resident.length = t.residentCount := by
  have hsize := h.size_eq
  have hbound : t.size ≤ wordBound := hsize ▸ hn
  refine ⟨hsize, fun op outcome t' hcall q hq => ?_, fun op stop t' => eq_of_call_error,
    fun op => op.call_eq t, fun p e => restore_invalidate, fun op outcome t' => readOnly_of_call,
    h.tidy.held, ascending_resident hbound, fun p f => mem_resident_iff hbound, t.length_resident⟩
  rcases eq_or_setEntry_of_call hcall with rfl | ⟨e, rfl⟩
  · rfl
  · rw [get?_setEntry, if_neg hq]

/-- The entry of a page in frame 7 that was written. -/
def written : PageEntry := (PageEntry.resident 7 false true).accessed true

/-- A table of two pages with `written` for the last one. -/
def juggled : PageTable := ⟨#[.empty, written]⟩

/-- Page 0 is written and dropped, page 1 becomes read-only and then gets the old entry of page 0, and two
calls go wrong. -/
def juggles : List Record :=
  [⟨.install ⟨0⟩ ⟨7⟩ true, .ok .done⟩, ⟨.markAccess ⟨0⟩ true, .ok .done⟩,
    ⟨.invalidate ⟨0⟩, .ok (.entry (some written))⟩, ⟨.setReadOnly ⟨1⟩ true, .ok .done⟩,
    ⟨.restore ⟨1⟩ written, .ok .done⟩,
    ⟨.install ⟨1⟩ ⟨3⟩ true, .error (.violation (.installedTwice ⟨1⟩))⟩,
    ⟨.install ⟨5⟩ ⟨0x1000000⟩ true, .error (.error (.frameTooLarge ⟨0x1000000⟩))⟩]

theorem history_juggles : History (.ofPages 2) juggles juggled := by
  have h₁ : History (.ofPages 2) (juggles.take 1) ⟨#[.resident 7 false true, .empty]⟩ :=
    .call .start trivial rfl
  have h₂ : History (.ofPages 2) (juggles.take 2) ⟨#[written, .empty]⟩ := h₁.call trivial rfl
  have h₃ : History (.ofPages 2) (juggles.take 3) ⟨#[.empty, .empty]⟩ := h₂.call trivial rfl
  have h₄ : History (.ofPages 2) (juggles.take 4) ⟨#[.empty, PageEntry.empty.put .readOnly true]⟩ :=
    h₃.call trivial rfl
  have h₅ : History (.ofPages 2) (juggles.take 5) juggled := h₄.call (List.mem_singleton_self _) rfl
  have h₆ : History (.ofPages 2) (juggles.take 6) juggled := h₅.call trivial rfl
  exact h₆.call trivial rfl

theorem laws_juggled :
    History (.ofPages 2) juggles juggled ∧ 2 ≤ wordBound ∧
    (Operation.install ⟨2⟩ ⟨0⟩ true).call juggled = (.error (.error (.outOfRange ⟨2⟩ 2)), juggled) ∧
    (∃ t', (Operation.invalidate ⟨1⟩).call juggled = (.ok (.entry (some written)), t') ∧
      (Operation.restore ⟨1⟩ written).call t' = (.ok .done, juggled) ∧
      t'.get? ⟨0⟩ = juggled.get? ⟨0⟩ ∧
      (t'.get? ⟨1⟩).map PageEntry.readOnly = (juggled.get? ⟨1⟩).map PageEntry.readOnly) ∧
    juggled.get? ⟨0⟩ = some .empty ∧ PageEntry.empty.Blank ∧
    (⟨1⟩, ⟨7⟩) ∈ juggled.resident ∧ juggled.resident.length = 1 := by
  obtain ⟨-, hother, herror, -, hback, hreadOnly, hblank, -, hmem, hlength⟩ :=
    history_juggles.laws (by decide)
  obtain ⟨t', hdropped, hrestored⟩ := hback ⟨1⟩ written rfl
  have hfails : (Operation.install ⟨2⟩ ⟨0⟩ true).call juggled =
      (.error (.error (.outOfRange ⟨2⟩ 2)), ((Operation.install ⟨2⟩ ⟨0⟩ true).call juggled).2) := rfl
  refine ⟨history_juggles, by decide, ?_, ⟨t', hdropped, hrestored, ?_, ?_⟩, rfl, ?_, ?_, ?_⟩
  · exact hfails.trans (congrArg _ (herror _ _ _ hfails))
  · exact hother _ _ _ hdropped ⟨0⟩ (by decide)
  · exact hreadOnly _ _ _ hdropped nofun nofun ⟨1⟩
  · exact hblank ⟨0⟩ .empty rfl
  · exact (hmem ⟨1⟩ ⟨7⟩).mpr (by decide)
  · exact hlength.trans (by decide)

end PageTable

end DemandPaging
