import Mathlib.Data.Set.Card
import DemandPaging.SwapOperation
import DemandPaging.Proofs.LastCalls

/-!
# A swap store in the hands of any client

Seen from outside a store is a finite map with a limit. What it holds is told by the calls that were
made: the bytes of the last successful store under a key, unless the copies of the owner were discarded
since (`Swap.Holds`). `Swap.Does` lists all that can come of a call, and taken statement by statement a
call comes to the same (`Swap.Operation.call_eq`), so a call that fails has changed neither the store nor
the buffer. Along every history the store is the map that the calls tell (`Swap.Records`).
-/

namespace DemandPaging

namespace Swap

variable {s s' : Swap} {key k : SwapKey} {p : Page} {op : Operation}

/-! ## Keys -/

/-- What the copies are filed under. -/
def keys (s : Swap) : List SwapKey := s.slots.map Prod.fst

/-- The store holds no more copies than it may. -/
def Bounded (s : Swap) : Prop := ∀ c, s.capacity = some c → s.size ≤ c

/-- A copy that is found has a slot. -/
theorem exists_slot_of_copy? (h : s.copy? key ≠ none) : ∃ slot ∈ s.slots, slot.1 = key := by
  by_contra hnone
  refine h (List.lookup_eq_none_iff.mpr fun slot hslot => ?_)
  exact bne_iff_ne.mpr fun heq => hnone ⟨slot, hslot, heq.symm⟩

/-- A slot can be found. -/
theorem copy?_ne_none_of_mem {slot : SwapKey × Page} (h : slot ∈ s.slots) :
    s.copy? slot.1 ≠ none := by
  intro hnone
  have hne := List.lookup_eq_none_iff.mp hnone slot h
  exact bne_iff_ne.mp hne rfl

theorem mem_keys_iff : key ∈ s.keys ↔ s.copy? key ≠ none := by
  rw [keys, List.mem_map]
  refine ⟨?_, exists_slot_of_copy?⟩
  rintro ⟨slot, hslot, rfl⟩
  exact copy?_ne_none_of_mem hslot

theorem length_keys (s : Swap) : s.keys.length = s.size := List.length_map ..

theorem size_insert_le (s : Swap) (key : SwapKey) (p : Page) :
    (s.insert key p).size ≤ s.size + 1 :=
  Nat.succ_le_succ (List.length_filter_le ..)

/-- A copy in place of an earlier one takes no more room. -/
theorem size_insert_le_of_contains (h : s.contains key = true) (p : Page) :
    (s.insert key p).size ≤ s.size := by
  obtain ⟨slot, hslot, hkey⟩ := exists_slot_of_copy? (Option.isSome_iff_ne_none.mp h)
  refine List.length_filter_lt_length_iff_exists.mpr ⟨slot, hslot, ?_⟩
  simpa using hkey

/-- Some of the copies have no keys but those that all of them have. -/
theorem keys_filter_sublist (s : Swap) (keep : SwapKey × Page → Bool) :
    ((s.slots.filter keep).map Prod.fst).Sublist s.keys :=
  List.filter_sublist.map _

theorem nodup_insert (h : s.keys.Nodup) (key : SwapKey) (p : Page) : (s.insert key p).keys.Nodup := by
  refine List.nodup_cons.mpr ⟨fun hmem => ?_, (keys_filter_sublist s _).nodup h⟩
  obtain ⟨slot, hslot, hkey⟩ := List.mem_map.mp hmem
  have hne := (List.mem_filter.mp hslot).2
  simp [hkey] at hne

/-! ## What can come of a call -/

/-- A copy under the key finds its place: there is one to replace, or the limit is not reached. -/
def HasRoom (s : Swap) (key : SwapKey) : Prop :=
  ∀ c, s.capacity = some c → s.copy? key ≠ none ∨ s.size < c

/-- All that can come of a call. -/
inductive Does (s : Swap) : Operation → Except SwapError (Reply × Bytes × Swap) → Prop
  | stored {key : SwapKey} {p : Page} (room : s.HasRoom key) : s.Does (.store key p.bytes)
      (.ok (.done, p.bytes, { s.insert key p with stores := s.stores + 1 }))
  | full {key : SwapKey} {p : Page} {c : Nat} (limit : s.capacity = some c)
      (absent : s.copy? key = none) (reached : c ≤ s.size) :
      s.Does (.store key p.bytes) (.error (.full c))
  | storeMisfit {key : SwapKey} {frame : Bytes} (length : frame.length ≠ pageSize) :
      s.Does (.store key frame) (.error (.badFrameSize frame.length))
  | found {key : SwapKey} {buffer : Bytes} {p : Page} (length : buffer.length = pageSize)
      (copy : s.copy? key = some p) :
      s.Does (.load key buffer) (.ok (.found true, p.bytes, { s with loads := s.loads + 1 }))
  | missing {key : SwapKey} {buffer : Bytes} (length : buffer.length = pageSize)
      (absent : s.copy? key = none) : s.Does (.load key buffer) (.ok (.found false, buffer, s))
  | loadMisfit {key : SwapKey} {buffer : Bytes} (length : buffer.length ≠ pageSize) :
      s.Does (.load key buffer) (.error (.badFrameSize buffer.length))
  | discarded {owner : ProcessId} : s.Does (.discard owner) (.ok (.done, [], s.discard owner))

theorem does_store (s : Swap) (key : SwapKey) (frame : Bytes) :
    s.Does (.store key frame) ((Operation.store key frame).apply s) := by
  by_cases hlength : frame.length = pageSize
  · obtain ⟨p, rfl⟩ := Page.exists_eq_bytes hlength
    simp only [Operation.apply, store, Page.ofBytes?_bytes]
    cases hcapacity : s.capacity with
    | none => exact .stored fun c hc => nomatch hcapacity.symm.trans hc
    | some c =>
      dsimp only
      split
      · next hfull =>
        rw [Bool.and_eq_true, Bool.not_eq_true', decide_eq_true_iff] at hfull
        exact .full hcapacity (Option.isSome_eq_false_iff.mp hfull.1 |> Option.isNone_iff_eq_none.mp)
          hfull.2
      · next hroom =>
        refine .stored fun c' hc' => ?_
        cases hcapacity.symm.trans hc'
        simpa [or_iff_not_imp_left, contains, Option.isSome_iff_ne_none] using hroom
  · have hpage : Page.ofBytes? frame = none := dif_neg hlength
    simp only [Operation.apply, store, hpage]
    exact .storeMisfit hlength

/-- **All that can come of a call** of a store that can read its copies. -/
theorem does (h : ∀ page, s.unreadable page = false) (op : Operation) : s.Does op (op.apply s) := by
  cases op with
  | store key frame => exact does_store s key frame
  | discard owner => exact .discarded
  | load key buffer =>
    simp only [Operation.apply, load, h, Bool.false_eq_true, if_false]
    by_cases hlength : buffer.length = pageSize
    · rw [if_neg (not_not_intro hlength)]
      cases hcopy : s.copy? key with
      | none => exact .missing hlength hcopy
      | some p => exact .found hlength hcopy
    · rw [if_pos hlength]
      exact .loadMisfit hlength

/-- The outcome of a call that changes nothing if it fails. -/
def Operation.settle (op : Operation) (s : Swap) :
    Except SwapError (Reply × Bytes × Swap) → Except SwapError Reply × Bytes × Swap
  | .ok (reply, buffer, s') => (.ok reply, buffer, s')
  | .error e => (.error e, op.buffer, s)

/-- **A call statement by statement.** Nothing fails after a statement that has changed something. -/
theorem Operation.call_eq (op : Operation) (s : Swap) : op.call s = op.settle s (op.apply s) := by
  cases op with
  | discard owner => rfl
  | store key frame =>
    simp only [call, perform, apply, Swap.store]
    cases hpage : Page.ofBytes? frame with
    | none => rfl
    | some p =>
      simp only [EStateM.run_bind, EStateM.run_get]
      cases hcapacity : s.capacity with
      | none => rfl
      | some c =>
        dsimp only
        by_cases hfull : (!s.contains key && decide (c ≤ s.size)) = true <;>
        · simp only [hfull]
          rfl
  | load key buffer =>
    simp only [call, perform, apply, Swap.load, EStateM.run_bind, EStateM.run_get, Operation.buffer]
    by_cases hread : s.unreadable key.2 = true
    · simp only [hread]
      rfl
    · by_cases hlength : buffer.length = pageSize
      · simp only [hread, hlength]
        cases hcopy : s.copy? key <;> simp [hcopy] <;> rfl
      · simp only [hread, ne_eq, hlength, not_false_eq_true, if_true]
        rfl

/-! ## What the calls tell -/

namespace Entry

/-- The bytes were saved under the key. -/
def Stores (e : Entry) (key : SwapKey) (content : Bytes) : Prop :=
  e.operation = .store key content ∧ e.outcome = .ok .done

/-- Whatever was saved under the key before, it is gone: other bytes have taken its place, or the copies
of its owner were discarded. -/
def Replaces (e : Entry) (key : SwapKey) : Prop :=
  (∃ content, e.Stores key content) ∨ e.operation = .discard key.1

/-- The call was a successful store. -/
def stored (e : Entry) : Bool :=
  match e.operation, e.outcome with
  | .store .., .ok _ => true
  | _, _ => false

/-- The call was a load that found a copy. -/
def found (e : Entry) : Bool :=
  match e.outcome with
  | .ok (.found true) => true
  | _ => false

end Entry

/-- The last successful store under the key was one of these bytes, and the copies of the owner were
not discarded since. -/
def Holds (past : List Entry) (key : SwapKey) (content : Bytes) : Prop :=
  ∃ before e behind, past = before ++ e :: behind ∧ e.Stores key content ∧
    ∀ x ∈ behind, ¬ x.Replaces key

/-- The keys under which something is held. -/
def heldKeys (past : List Entry) : Set SwapKey := {key | ∃ content, Holds past key content}

variable {past : List Entry} {e : Entry} {content buffer : Bytes} {capacity : Option Nat}
  {outcome : Except SwapError Reply} {err : SwapError}

theorem holds_append : Holds (past ++ [e]) key content ↔
    e.Stores key content ∨ Holds past key content ∧ ¬ e.Replaces key :=
  @exists_since_append _ (fun _ (x : Entry) => x.Stores key content) (fun x => x.Replaces key) past e

/-- A call that saves nothing and discards nothing. -/
theorem holds_append_of_idle (hstores : ∀ content, ¬ e.Stores key content)
    (hdiscard : e.operation ≠ .discard key.1) :
    Holds (past ++ [e]) key content ↔ Holds past key content := by
  rw [holds_append, or_iff_right (hstores content), and_iff_left]
  rintro (⟨c, hc⟩ | hd)
  · exact hstores c hc
  · exact hdiscard hd

/-! ## The store bears it out -/

/-- The store is the map that the calls tell. -/
structure Records (capacity : Option Nat) (past : List Entry) (s : Swap) : Prop where
  capacity : s.capacity = capacity
  readable : ∀ page, s.unreadable page = false
  nodup : s.keys.Nodup
  copies : ∀ key content, (s.copy? key).map Page.bytes = some content ↔ Holds past key content
  bounded : s.Bounded
  stores : s.stores = past.countP Entry.stored
  loads : s.loads = past.countP Entry.found

theorem records_empty (capacity : Option Nat) : Records capacity [] (.empty capacity) where
  capacity := rfl
  readable _ := rfl
  nodup := List.nodup_nil
  copies _ _ := iff_of_false nofun not_exists_since_nil
  bounded _ _ := Nat.zero_le _
  stores := rfl
  loads := rfl

/-- A call after which the copies are what they were. -/
theorem Records.of_slots (h : Records capacity past s) (hslots : s'.slots = s.slots)
    (hcapacity : s'.capacity = s.capacity) (hunreadable : s'.unreadable = s.unreadable)
    (hidle : ∀ key, (∀ content, ¬ e.Stores key content) ∧ e.operation ≠ .discard key.1)
    (hstores : s'.stores = s.stores + if e.stored = true then 1 else 0)
    (hloads : s'.loads = s.loads + if e.found = true then 1 else 0) :
    Records capacity (past ++ [e]) s' where
  capacity := hcapacity.trans h.capacity
  readable := hunreadable ▸ h.readable
  nodup := by rw [keys, hslots]; exact h.nodup
  copies key content := by
    rw [holds_append_of_idle (hidle key).1 (hidle key).2, ← h.copies key content, copy?, copy?, hslots]
  bounded c hc := by
    rw [size, hslots]
    exact h.bounded c (hcapacity ▸ hc)
  stores := by rw [hstores, h.stores, List.countP_append, List.countP_singleton]
  loads := by rw [hloads, h.loads, List.countP_append, List.countP_singleton]

/-- A copy was saved. -/
theorem Records.stored (h : Records capacity past s) (room : s.HasRoom key) :
    Records capacity (past ++ [⟨.store key p.bytes, .ok .done⟩])
      { s.insert key p with stores := s.stores + 1 } where
  capacity := h.capacity
  readable := h.readable
  nodup := nodup_insert h.nodup key p
  copies k content := by
    have hcopy : ({ s.insert key p with stores := s.stores + 1 } : Swap).copy? k =
        if k = key then some p else s.copy? k := s.copy?_insert key k p
    rw [hcopy]
    by_cases hk : k = key
    · subst hk
      rw [if_pos rfl, holds_append, Option.map_some, Option.some.injEq]
      constructor
      · rintro rfl
        exact Or.inl ⟨rfl, rfl⟩
      · rintro (⟨hop, -⟩ | ⟨-, hstays⟩)
        · cases hop
          rfl
        · exact absurd (Or.inl ⟨_, rfl, rfl⟩) hstays
    · have hother : ∀ c, ¬ Entry.Stores ⟨.store key p.bytes, .ok .done⟩ k c := by
        rintro c ⟨hop, -⟩
        cases hop
        exact hk rfl
      rw [if_neg hk, h.copies, holds_append_of_idle hother nofun]
  bounded c hc := by
    rcases room c hc with hcopy | hlt
    · have hcontains : s.contains key = true := Option.isSome_iff_ne_none.mpr hcopy
      exact Nat.le_trans (size_insert_le_of_contains hcontains p) (h.bounded c hc)
    · exact Nat.le_trans (size_insert_le s key p) hlt
  stores := by
    rw [List.countP_append, ← h.stores]
    rfl
  loads := by
    rw [List.countP_append, ← h.loads]
    rfl

/-- The copies of an owner were discarded. -/
theorem Records.discarded {owner : ProcessId} (h : Records capacity past s) :
    Records capacity (past ++ [⟨.discard owner, .ok .done⟩]) (s.discard owner) where
  capacity := h.capacity
  readable := h.readable
  nodup := (keys_filter_sublist s _).nodup h.nodup
  copies k content := by
    rw [copy?_discard]
    by_cases hk : k.1 = owner
    · subst hk
      rw [if_pos rfl, holds_append]
      refine iff_of_false nofun ?_
      rintro (⟨hop, -⟩ | ⟨-, hstays⟩)
      · cases hop
      · exact hstays (Or.inr rfl)
    · have hother : Operation.discard owner ≠ .discard k.1 := fun hop => by
        cases hop
        exact hk rfl
      rw [if_neg hk, h.copies, holds_append_of_idle (by rintro c ⟨hop, -⟩; cases hop) hother]
  bounded c hc := Nat.le_trans (List.length_filter_le ..) (h.bounded c hc)
  stores := by
    rw [List.countP_append, ← h.stores]
    rfl
  loads := by
    rw [List.countP_append, ← h.loads]
    rfl

/-- **One call** is borne out by the store that it leaves behind. -/
theorem Records.call (h : Records capacity past s) (hcall : op.call s = (outcome, buffer, s')) :
    Records capacity (past ++ [⟨op, outcome⟩]) s' := by
  have hdoes := s.does h.readable op
  rw [op.call_eq] at hcall
  generalize op.apply s = result at hdoes hcall
  cases hdoes with
  | full | storeMisfit | found | missing | loadMisfit =>
    cases hcall
    exact h.of_slots rfl rfl rfl (fun key => ⟨nofun, nofun⟩) rfl rfl
  | stored room =>
    cases hcall
    exact h.stored room
  | discarded =>
    cases hcall
    exact h.discarded

/-- **Any number of calls** are borne out by the store that they leave behind. -/
theorem History.records (h : History (.empty capacity) past s) : Records capacity past s := by
  induction h with
  | start => exact records_empty capacity
  | call _ hcall ih => exact ih.call hcall

/-- Calls that are replayed are a history. -/
theorem History.replay {s₀ : Swap} {more : List Entry} {ops : List Operation}
    (h : History s₀ past s) (hreplay : s.replay ops = (more, s')) : History s₀ (past ++ more) s' := by
  induction ops generalizing past s more with
  | nil =>
    cases hreplay
    rwa [List.append_nil]
  | cons op ops ih =>
    cases hreplay
    rw [List.append_cons]
    exact ih (h.call rfl) rfl

theorem history_replay (s : Swap) (ops : List Operation) :
    History s (s.replay ops).1 (s.replay ops).2 :=
  History.start.replay (Prod.eta (s.replay ops)).symm

/-! ## Main statement -/

/-- Why a call fails, as far as the calls tell that were made before. -/
inductive Refuses (capacity : Option Nat) (past : List Entry) : Operation → SwapError → Prop
  | full {key : SwapKey} {frame : Bytes} {c : Nat} (length : frame.length = pageSize)
      (limit : capacity = some c) (absent : key ∉ heldKeys past)
      (reached : c ≤ (heldKeys past).ncard) : Refuses capacity past (.store key frame) (.full c)
  | storeMisfit {key : SwapKey} {frame : Bytes} (length : frame.length ≠ pageSize) :
      Refuses capacity past (.store key frame) (.badFrameSize frame.length)
  | loadMisfit {key : SwapKey} {buffer : Bytes} (length : buffer.length ≠ pageSize) :
      Refuses capacity past (.load key buffer) (.badFrameSize buffer.length)

namespace Records

variable (h : Records capacity past s)
include h

theorem mem_heldKeys_iff : key ∈ heldKeys past ↔ s.copy? key ≠ none := by
  simp only [heldKeys, Set.mem_ofPred_eq, ← h.copies, Option.map_eq_some_iff, Option.ne_none_iff_exists']
  exact ⟨fun ⟨_, p, hp, _⟩ => ⟨p, hp⟩, fun ⟨p, hp⟩ => ⟨_, p, hp, rfl⟩⟩

/-- Copies are counted by their keys. -/
theorem size_eq : s.size = (heldKeys past).ncard := by
  have hkeys : heldKeys past = (s.keys.toFinset : Set SwapKey) := by
    ext key
    rw [h.mem_heldKeys_iff, List.coe_toFinset, Set.mem_ofPred_eq, mem_keys_iff]
  rw [hkeys, Set.ncard_coe_finset, List.toFinset_card_of_nodup h.nodup, length_keys]

theorem apply_error_iff : op.apply s = .error err ↔ Refuses capacity past op err := by
  have hdoes := s.does h.readable op
  constructor
  · intro happly
    rw [happly] at hdoes
    cases hdoes with
    | full limit absent reached =>
      exact .full (Page.length_bytes _) (h.capacity ▸ limit)
        (fun hheld => h.mem_heldKeys_iff.mp hheld absent) (h.size_eq ▸ reached)
    | storeMisfit length => exact .storeMisfit length
    | loadMisfit length => exact .loadMisfit length
  · generalize op.apply s = result at hdoes
    intro hrefuses
    cases hrefuses with
    | @full key frame c length limit absent reached =>
      have hnone : s.copy? key = none := by
        rwa [h.mem_heldKeys_iff, not_not] at absent
      rw [← h.capacity] at limit
      cases hdoes with
      | stored room => 
        rcases room c limit with hcopy | hlt
        · exact absurd hnone hcopy
        · exact absurd (h.size_eq ▸ hlt) (Nat.not_lt.mpr reached)
      | full limit' =>
        cases limit.symm.trans limit'
        rfl
      | storeMisfit length' => exact absurd length length'
    | storeMisfit length =>
      cases hdoes with
      | stored | full => exact absurd (Page.length_bytes _) length
      | storeMisfit => rfl
    | loadMisfit length =>
      cases hdoes with
      | found length' | missing length' => exact absurd length' length
      | loadMisfit => rfl

theorem call_error_iff : op.call s = (.error err, buffer, s') ↔
    Refuses capacity past op err ∧ buffer = op.buffer ∧ s' = s := by
  rw [op.call_eq, ← h.apply_error_iff]
  cases op.apply s with
  | ok done => exact iff_of_false nofun nofun
  | error e =>
    rw [Operation.settle, Prod.mk.injEq, Prod.mk.injEq, Except.error.injEq, Except.error.injEq,
      eq_comm (a := op.buffer), eq_comm (a := s)]

/-- What is held is read back. -/
theorem call_load_of_holds (hbuffer : buffer.length = pageSize) (hholds : Holds past key content) :
    (Operation.load key buffer).call s =
      (.ok (.found true), content, { s with loads := s.loads + 1 }) := by
  obtain ⟨p, hp, rfl⟩ := Option.map_eq_some_iff.mp ((h.copies key content).mpr hholds)
  have hdoes := s.does h.readable (.load key buffer)
  rw [Operation.call_eq]
  generalize (Operation.load key buffer).apply s = result at hdoes
  cases hdoes with
  | found _ copy =>
    cases hp.symm.trans copy
    rfl
  | missing _ absent => exact absurd (hp.symm.trans absent) nofun
  | loadMisfit length => exact absurd hbuffer length

/-- Where nothing is held the buffer stays what it was. -/
theorem call_load_of_not_held (hbuffer : buffer.length = pageSize) (hheld : key ∉ heldKeys past) :
    (Operation.load key buffer).call s = (.ok (.found false), buffer, s) := by
  rw [h.mem_heldKeys_iff, not_not] at hheld
  have hdoes := s.does h.readable (.load key buffer)
  rw [Operation.call_eq]
  generalize (Operation.load key buffer).apply s = result at hdoes
  cases hdoes with
  | found _ copy => exact absurd (hheld.symm.trans copy) nofun
  | missing => rfl
  | loadMisfit length => exact absurd hbuffer length

end Records

/-- **A store is a finite map with a limit.** After any sequence of calls, whatever their owners, pages
and buffers, and failed calls included: a load into a buffer of one page finds the bytes of the last
successful store under the key that was not followed by a discard of its owner, or leaves the buffer
alone if there is none. A call fails exactly for one of the causes of `Refuses`, and then it has changed
neither the store nor the buffer, although it is taken statement by statement; so it comes to the same as
the function of the store. Presence and size are those of the held keys, of which there are never more
than the limit, and the counters count the successful stores and the loads that found a copy. -/
theorem History.limited_map (h : History (.empty capacity) past s) :
    (∀ key buffer, buffer.length = pageSize →
      (∀ content, Holds past key content → ∃ s', (Operation.load key buffer).call s =
        (.ok (.found true), content, s')) ∧
      (key ∉ heldKeys past → (Operation.load key buffer).call s = (.ok (.found false), buffer, s))) ∧
    (∀ (op : Operation) err buffer s', op.call s = (.error err, buffer, s') ↔
      Refuses capacity past op err ∧ buffer = op.buffer ∧ s' = s) ∧
    (∀ op : Operation, op.call s = op.settle s (op.apply s)) ∧
    (∀ key, s.contains key = true ↔ key ∈ heldKeys past) ∧
    s.size = (heldKeys past).ncard ∧ (s.isEmpty = true ↔ heldKeys past = ∅) ∧
    (∀ c, capacity = some c → s.size ≤ c) ∧
    s.stores = past.countP Entry.stored ∧ s.loads = past.countP Entry.found := by
  have hrec := h.records
  refine ⟨fun key buffer hbuffer => ⟨fun content hholds => ⟨_, hrec.call_load_of_holds hbuffer hholds⟩,
      hrec.call_load_of_not_held hbuffer⟩, fun op err buffer s' => hrec.call_error_iff,
    fun op => op.call_eq s, fun key => ?_, hrec.size_eq, ?_, fun c hc => ?_, hrec.stores, hrec.loads⟩
  · rw [hrec.mem_heldKeys_iff, contains, Option.isSome_iff_ne_none]
  · rw [Set.eq_empty_iff_forall_notMem, isEmpty, List.isEmpty_iff]
    simp only [hrec.mem_heldKeys_iff, ← mem_keys_iff]
    rw [← List.eq_nil_iff_forall_not_mem, keys, List.map_eq_nil_iff]
  · exact hrec.bounded c (hrec.capacity.trans hc)

/-- Calls of a store with room for two copies: a third one is refused, an earlier one is replaced, a
buffer is too short, and one of the two owners of page 0 lets its copy be forgotten. -/
def exchanges : List Operation :=
  let one : Bytes := (Page.ofPrefix [1]).bytes
  let two : Bytes := (Page.ofPrefix [2]).bytes
  [.store (⟨1⟩, ⟨0⟩) one, .store (⟨2⟩, ⟨0⟩) one, .store (⟨1⟩, ⟨1⟩) one, .store (⟨1⟩, ⟨0⟩) two,
    .load (⟨1⟩, ⟨0⟩) [0, 0, 0], .discard ⟨2⟩, .load (⟨2⟩, ⟨0⟩) one, .store (⟨1⟩, ⟨1⟩) one]

/-- What comes of them, and the store they leave behind. -/
def exchanged : List Entry × Swap := (Swap.empty (some 2)).replay exchanges

theorem limited_map_exchanged :
    History (.empty (some 2)) exchanged.1 exchanged.2 ∧
    exchanged.1.map Entry.outcome = [.ok .done, .ok .done, .error (.full 2), .ok .done,
      .error (.badFrameSize 3), .ok .done, .ok (.found false), .ok .done] ∧
    Page.zero.bytes.length = pageSize ∧
    Holds exchanged.1 (⟨1⟩, ⟨0⟩) (Page.ofPrefix [2]).bytes ∧
    (∃ s', (Operation.load (⟨1⟩, ⟨0⟩) Page.zero.bytes).call exchanged.2 =
      (.ok (.found true), (Page.ofPrefix [2]).bytes, s')) ∧
    (⟨2⟩, ⟨0⟩) ∉ heldKeys exchanged.1 ∧
    (Operation.load (⟨2⟩, ⟨0⟩) Page.zero.bytes).call exchanged.2 =
      (.ok (.found false), Page.zero.bytes, exchanged.2) ∧
    (Operation.store (⟨2⟩, ⟨0⟩) Page.zero.bytes).call exchanged.2 =
      (.error (.full 2), Page.zero.bytes, exchanged.2) ∧
    exchanged.2.stores = 4 ∧ exchanged.2.loads = 0 := by
  have hpast : History (.empty (some 2)) exchanged.1 exchanged.2 :=
    history_replay (.empty (some 2)) exchanges
  obtain ⟨hload, herror, -, hcontains, hsize, -, -, hstores, hloads⟩ := hpast.limited_map
  have hholds : Holds exchanged.1 (⟨1⟩, ⟨0⟩) (Page.ofPrefix [2]).bytes :=
    (hpast.records.copies _ _).mp (by decide +kernel)
  have habsent : (⟨2⟩, ⟨0⟩) ∉ heldKeys exchanged.1 :=
    fun hheld => absurd ((hcontains _).mpr hheld) (by decide +kernel)
  have htwo : 2 ≤ (heldKeys exchanged.1).ncard := hsize ▸ (by decide +kernel)
  exact ⟨hpast, by decide +kernel, Page.zero.length_bytes, hholds,
    (hload _ _ Page.zero.length_bytes).1 _ hholds, habsent,
    (hload _ _ Page.zero.length_bytes).2 habsent,
    (herror _ _ _ _).mpr ⟨.full Page.zero.length_bytes rfl habsent htwo, rfl, rfl⟩,
    hstores.trans (by decide +kernel), hloads.trans (by decide +kernel)⟩

end Swap

end DemandPaging
