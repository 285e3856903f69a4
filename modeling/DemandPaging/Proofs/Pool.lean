import DemandPaging.Frames.FrameTable
import DemandPaging.Proofs.FreeStack

/-!
# The pool of frames

A pool is valid if its free list and its directory tell the same story: exactly the frames without
owner are on the list, each of them once, and none of them is pinned. Each operation of the pool is
given by an equation for what it leaves behind, and keeps the pool valid.

The clock is known by two facts: the frame it chooses is owned and unpinned, and apart from
referenced marks it changes no record.
-/

namespace DemandPaging

namespace FrameInfo

variable {O : Type}

/-- The record as far as the clock leaves it alone. -/
def unmarked (i : FrameInfo O) : FrameInfo O := { i with referenced := false }

theorem isFree_eq_false {i : FrameInfo O} (h : i.owner ≠ none) : i.isFree = false := by
  rw [isFree, Option.isNone_eq_false_iff]
  exact Option.isSome_iff_ne_none.mpr h

/-- Records that differ in the mark only have the same owner, page and pins. -/
theorem eq_of_unmarked_eq {i j : FrameInfo O} (h : i.unmarked = j.unmarked) :
    i.owner = j.owner ∧ i.page = j.page ∧ i.pins = j.pins := by
  obtain ⟨o, p, n, r⟩ := i
  obtain ⟨o', p', n', r'⟩ := j
  simp only [unmarked, mk.injEq, and_true] at h
  exact h

end FrameInfo

namespace FrameTable

variable {O : Type}

/-- Free list and directory agree. -/
structure Valid (t : FrameTable O) : Prop where
  size_le : t.directory.size ≤ wordBound
  size_listed : t.free.listed.size = t.directory.size
  nodup : t.free.stack.Nodup
  mem_stack : ∀ f, f ∈ t.free.stack ↔ ∃ i, t.info? f = some i ∧ i.owner = none
  listed : ∀ f, t.free.contains f = true ↔ f ∈ t.free.stack
  unpinned : ∀ f i, t.info? f = some i → i.owner = none → i.pins = 0

/-! ## What the operations leave behind -/

/-- The pool with another record for one frame. -/
def withInfo (t : FrameTable O) (f : FrameNumber) (i : FrameInfo O) : FrameTable O :=
  { t with directory := t.directory.set f i }

/-- The pool after the top frame `f` of the free list was given to a page, pinned once. -/
def handOut (t : FrameTable O) (f : FrameNumber) (owner : O) (page : PageNumber) : FrameTable O :=
  { t with
    free := ⟨t.free.stack.tail, t.free.listed.setIfInBounds f.toNat false⟩
    directory := t.directory.set f ⟨some owner, page, 1, false⟩ }

/-- The pool after frame `f` was put back on top of the free list. -/
def takeBack (t : FrameTable O) (f : FrameNumber) : FrameTable O :=
  { t with
    free := ⟨f :: t.free.stack, t.free.listed.setIfInBounds f.toNat true⟩
    directory := t.directory.set f .free }

/-- The pool after a pin was taken from frame `f`, which had the record `i`. -/
def dropPin (t : FrameTable O) (f : FrameNumber) (i : FrameInfo O) : FrameTable O :=
  if 1 < i.pins then t.withInfo f { i with pins := i.pins - 1 }
  else (t.withInfo f { i with pins := i.pins - 1 }).wakeOne.2

theorem info?_withInfo {t : FrameTable O} {f : FrameNumber} {i : FrameInfo O}
    (h : t.info? f = some i) (j : FrameInfo O) (g : FrameNumber) :
    (t.withInfo f j).info? g = if g = f then some j else t.info? g := by
  have h' : t.directory.get? f = some i := h
  simp only [withInfo, info?, Directory.get?_set, h', Option.map_some]

theorem info?_handOut {t : FrameTable O} {f : FrameNumber} {i : FrameInfo O}
    (h : t.info? f = some i) (owner : O) (page : PageNumber) (g : FrameNumber) :
    (t.handOut f owner page).info? g = if g = f then some ⟨some owner, page, 1, false⟩
      else t.info? g := by
  have h' : t.directory.get? f = some i := h
  simp only [handOut, info?, Directory.get?_set, h', Option.map_some]

theorem info?_takeBack {t : FrameTable O} {f : FrameNumber} {i : FrameInfo O}
    (h : t.info? f = some i) (g : FrameNumber) :
    (t.takeBack f).info? g = if g = f then some .free else t.info? g := by
  have h' : t.directory.get? f = some i := h
  simp only [takeBack, info?, Directory.get?_set, h', Option.map_some]

@[simp] theorem info?_wakeOne (t : FrameTable O) (g : FrameNumber) :
    t.wakeOne.2.info? g = t.info? g := rfl

theorem info?_dropPin {t : FrameTable O} {f : FrameNumber} {i : FrameInfo O}
    (h : t.info? f = some i) (g : FrameNumber) :
    (t.dropPin f i).info? g = if g = f then some { i with pins := i.pins - 1 }
      else t.info? g := by
  unfold dropPin
  split
  · exact info?_withInfo h _ g
  · rw [info?_wakeOne]
    exact info?_withInfo h _ g

@[simp] theorem size_withInfo (t : FrameTable O) (f : FrameNumber) (i : FrameInfo O) :
    (t.withInfo f i).directory.size = t.directory.size := Directory.size_set ..

@[simp] theorem size_handOut (t : FrameTable O) (f : FrameNumber) (owner : O)
    (page : PageNumber) : (t.handOut f owner page).directory.size = t.directory.size :=
  Directory.size_set ..

@[simp] theorem size_takeBack (t : FrameTable O) (f : FrameNumber) :
    (t.takeBack f).directory.size = t.directory.size := Directory.size_set ..

@[simp] theorem size_dropPin (t : FrameTable O) (f : FrameNumber) (i : FrameInfo O) :
    (t.dropPin f i).directory.size = t.directory.size := by
  unfold dropPin
  split <;> exact Directory.size_set ..

/-- A frame with a record exists. -/
theorem lt_of_info? {t : FrameTable O} {f : FrameNumber} {i : FrameInfo O}
    (h : t.info? f = some i) : f.toNat < t.directory.size := by
  simp only [info?, Directory.get?] at h
  exact (Array.getElem?_eq_some_iff.mp h).1

/-- In a pool of one frame there is no record of another. -/
theorem eq_zero_of_info? {t : FrameTable O} {f : FrameNumber} {i : FrameInfo O}
    (hsize : t.directory.size = 1) (h : t.info? f = some i) : f = ⟨0⟩ := by
  have hlt := lt_of_info? h
  rw [hsize] at hlt
  exact FrameNumber.toNat_inj.mp (Nat.lt_one_iff.mp hlt)

/-! ## The equations -/

theorem allocate_of_nil {t : FrameTable O} (h : t.free.stack = []) (owner : O)
    (page : PageNumber) : t.allocate owner page = .ok (none, t) := by
  simp only [allocate, FreeList.pop?, h]

/-- The top frame of the free list has no owner yet. -/
theorem assign_of_cons {t : FrameTable O} (ht : t.Valid) {f : FrameNumber}
    {fs : List FrameNumber} (h : t.free.stack = f :: fs) (owner : O) (page : PageNumber) :
    t.directory.assign f owner page = .ok (t.handOut f owner page).directory := by
  obtain ⟨i, hi, hfree⟩ := (ht.mem_stack f).mp (by rw [h]; exact List.mem_cons_self)
  have hi' : t.directory.get? f = some i := hi
  simp only [Directory.assign, hi', FrameInfo.isFree, hfree, Option.isNone_none, if_true, handOut]

theorem allocate_of_cons {t : FrameTable O} (ht : t.Valid) {f : FrameNumber}
    {fs : List FrameNumber} (h : t.free.stack = f :: fs) (owner : O) (page : PageNumber) :
    t.allocate owner page = .ok (some f, t.handOut f owner page) := by
  simp only [allocate, FreeList.pop?, h, assign_of_cons ht h, handOut, List.tail_cons]
  rfl

/-- The free list of a valid pool. -/
theorem Valid.free {t : FrameTable O} (ht : t.Valid) : t.free.Valid t.directory.size :=
  ⟨ht.size_listed, ht.nodup, ht.listed⟩

/-- An owned frame is not on the free list yet. -/
theorem push_of_owned {t : FrameTable O} (ht : t.Valid) {f : FrameNumber} {i : FrameInfo O}
    (h : t.info? f = some i) (howner : i.owner ≠ none) :
    t.free.push f = .ok (t.takeBack f).free := by
  have hmem : f ∉ t.free.toList := by
    intro hm
    obtain ⟨j, hj, hnone⟩ := (ht.mem_stack f).mp hm
    rw [h] at hj
    exact howner (Option.some.inj hj ▸ hnone)
  rw [ht.free.push_eq, if_neg (Nat.not_le.mpr (lt_of_info? h)), if_neg hmem, takeBack]

theorem release_of_unpinned {t : FrameTable O} (ht : t.Valid) {f : FrameNumber}
    {i : FrameInfo O} (h : t.info? f = some i) (howner : i.owner ≠ none) (hpins : i.pins = 0) :
    t.release f = .ok (t.takeBack f) := by
  have h' : t.directory.get? f = some i := h
  have hfree := FrameInfo.isFree_eq_false howner
  have hpinned : i.isPinned = false := by simp [FrameInfo.isPinned, hpins]
  simp only [release, h', hfree, hpinned, Bool.false_eq_true, if_false, Directory.clear,
    Directory.update, push_of_owned ht h howner, takeBack]
  rfl

theorem release_of_pinned {t : FrameTable O} {f : FrameNumber} {i : FrameInfo O}
    (h : t.info? f = some i) (howner : i.owner ≠ none) (hpins : i.pins ≠ 0) :
    t.release f = .error (.releasedWhilePinned f) := by
  have h' : t.directory.get? f = some i := h
  have hfree := FrameInfo.isFree_eq_false howner
  have hpinned : i.isPinned = true := by
    simp only [FrameInfo.isPinned, decide_eq_true_eq]
    omega
  simp only [release, h', hfree, hpinned, Bool.false_eq_true, if_false, if_true]

theorem pin_of_owned {t : FrameTable O} {f : FrameNumber} {i : FrameInfo O}
    (h : t.info? f = some i) (howner : i.owner ≠ none) :
    t.pin f = if FrameInfo.maxPins ≤ i.pins then .error .overflow
      else .ok (t.withInfo f { i with pins := i.pins + 1 }) := by
  have h' : t.directory.get? f = some i := h
  have hfree := FrameInfo.isFree_eq_false howner
  simp only [pin, h', hfree, Bool.false_eq_true, if_false, withInfo]

/-- There is a waiter to wake unless the queue is empty. -/
theorem fst_wakeOne (t : FrameTable O) : t.wakeOne.1 = !t.waiters.queue.isEmpty := by
  unfold wakeOne WaitRoom.wakeOne WaitQueue.wakeOne WaitQueue.isEmpty
  cases t.waiters.queue.waiting <;> rfl

/-- A pin is taken away. It wakes a waiter if it was the last one and somebody waits. -/
theorem unpin_eq_of_pinned {t : FrameTable O} {f : FrameNumber} {i : FrameInfo O}
    (h : t.info? f = some i) (hpins : i.pins ≠ 0) :
    t.unpin f = .ok (decide (i.pins = 1) && !t.waiters.queue.isEmpty, t.dropPin f i) := by
  have h' : t.directory.get? f = some i := h
  have hpinned : i.isPinned = true := by
    simp only [FrameInfo.isPinned, decide_eq_true_eq]
    omega
  simp only [unpin, h', hpinned, if_true, dropPin, withInfo]
  by_cases hlast : i.pins = 1
  · rw [if_neg (by omega), if_neg (by omega), decide_eq_true hlast, Bool.true_and]
    exact congrArg (fun woke => Except.ok (woke, _)) (fst_wakeOne _)
  · rw [if_pos (by omega), if_pos (by omega), decide_eq_false hlast, Bool.false_and]

theorem unpin_of_pinned {t : FrameTable O} {f : FrameNumber} {i : FrameInfo O}
    (h : t.info? f = some i) (hpins : i.pins ≠ 0) :
    ∃ woke, t.unpin f = .ok (woke, t.dropPin f i) :=
  ⟨_, unpin_eq_of_pinned h hpins⟩

theorem setReferenced_of_info? {t : FrameTable O} {f : FrameNumber} {i : FrameInfo O}
    (h : t.info? f = some i) (b : Bool) :
    t.setReferenced f b = .ok (t.withInfo f { i with referenced := b }) := by
  have h' : t.directory.get? f = some i := h
  simp only [setReferenced, Directory.update, h', withInfo]
  rfl

/-! ## Validity is kept -/

/-- What validity does not speak of: the clock, the waiters, and anything in a record but the
owner and, for a free frame, the pins. -/
theorem Valid.of_info {t t' : FrameTable O} (ht : t.Valid) (hfree : t'.free = t.free)
    (hsize : t'.directory.size = t.directory.size)
    (hinfo : ∀ f, (t'.info? f).map FrameInfo.unmarked = (t.info? f).map FrameInfo.unmarked) :
    t'.Valid := by
  have back : ∀ f i, t'.info? f = some i → ∃ j, t.info? f = some j ∧ i.unmarked = j.unmarked := by
    intro f i hi
    have h := hinfo f
    rw [hi, Option.map_some] at h
    obtain ⟨j, hj, hij⟩ := Option.map_eq_some_iff.mp h.symm
    exact ⟨j, hj, hij.symm⟩
  have forth : ∀ f i, t.info? f = some i → ∃ j, t'.info? f = some j ∧ j.unmarked = i.unmarked := by
    intro f i hi
    have h := hinfo f
    rw [hi, Option.map_some] at h
    obtain ⟨j, hj, hij⟩ := Option.map_eq_some_iff.mp h
    exact ⟨j, hj, hij⟩
  refine ⟨hsize ▸ ht.size_le, by rw [hfree, hsize]; exact ht.size_listed, hfree ▸ ht.nodup, ?_,
    ?_, ?_⟩
  · intro f
    rw [hfree, ht.mem_stack]
    constructor
    · rintro ⟨i, hi, hnone⟩
      obtain ⟨j, hj, hij⟩ := forth f i hi
      exact ⟨j, hj, (FrameInfo.eq_of_unmarked_eq hij).1.trans hnone⟩
    · rintro ⟨i, hi, hnone⟩
      obtain ⟨j, hj, hij⟩ := back f i hi
      exact ⟨j, hj, (FrameInfo.eq_of_unmarked_eq hij).1.symm.trans hnone⟩
  · intro f
    rw [hfree]
    exact ht.listed f
  · intro f i hi hnone
    obtain ⟨j, hj, hij⟩ := back f i hi
    obtain ⟨ho, -, hp⟩ := FrameInfo.eq_of_unmarked_eq hij
    rw [hp]
    exact ht.unpinned f j hj (ho ▸ hnone)

/-- Another record for an owned frame that leaves it owned. -/
theorem Valid.withInfo {t : FrameTable O} (ht : t.Valid) {f : FrameNumber} {i j : FrameInfo O}
    (h : t.info? f = some i) (hi : i.owner ≠ none) (hj : j.owner ≠ none) :
    (t.withInfo f j).Valid := by
  refine ⟨(size_withInfo t f j).symm ▸ ht.size_le, ?_, ht.nodup, ?_, ht.listed, ?_⟩
  · rw [size_withInfo]
    exact ht.size_listed
  · intro g
    rw [info?_withInfo h, show (t.withInfo f j).free = t.free from rfl, ht.mem_stack]
    by_cases hg : g = f
    · subst hg
      simp [h, hi, hj]
    · rw [if_neg hg]
  · intro g k hk hnone
    rw [info?_withInfo h] at hk
    by_cases hg : g = f
    · rw [if_pos hg] at hk
      exact absurd (Option.some.inj hk ▸ hnone) hj
    · rw [if_neg hg] at hk
      exact ht.unpinned g k hk hnone

theorem Valid.wakeOne {t : FrameTable O} (ht : t.Valid) : t.wakeOne.2.Valid :=
  ht.of_info rfl rfl fun _ => rfl

theorem Valid.dropPin {t : FrameTable O} (ht : t.Valid) {f : FrameNumber} {i : FrameInfo O}
    (h : t.info? f = some i) (howner : i.owner ≠ none) : (t.dropPin f i).Valid := by
  have hv : (t.withInfo f { i with pins := i.pins - 1 }).Valid := ht.withInfo h howner howner
  unfold FrameTable.dropPin
  split
  · exact hv
  · exact hv.wakeOne

theorem Valid.handOut {t : FrameTable O} (ht : t.Valid) {f : FrameNumber}
    {fs : List FrameNumber} (h : t.free.stack = f :: fs) (owner : O) (page : PageNumber) :
    (t.handOut f owner page).Valid := by
  have hpop : t.free.pop? = some (f, (t.handOut f owner page).free) := by
    simp only [FreeList.pop?, h, FrameTable.handOut, List.tail_cons]
  have hfree := ht.free.pop? hpop
  obtain ⟨i, hi, -⟩ := (ht.mem_stack f).mp (by rw [h]; exact List.mem_cons_self)
  refine ⟨(size_handOut t f owner page).symm ▸ ht.size_le, ?_, hfree.nodup, ?_, hfree.listed, ?_⟩
  · rw [size_handOut]
    exact hfree.size_listed
  · intro g
    refine (ht.free.mem_of_pop? hpop g).trans ?_
    rw [info?_handOut hi]
    by_cases hg : g = f
    · simp [hg]
    · simp [hg, FreeList.toList, ht.mem_stack]
  · intro g k hk hnone
    rw [info?_handOut hi] at hk
    by_cases hg : g = f
    · rw [if_pos hg] at hk
      rw [← Option.some.inj hk] at hnone
      exact absurd hnone (Option.some_ne_none _)
    · rw [if_neg hg] at hk
      exact ht.unpinned g k hk hnone

theorem Valid.takeBack {t : FrameTable O} (ht : t.Valid) {f : FrameNumber} {i : FrameInfo O}
    (h : t.info? f = some i) (howner : i.owner ≠ none) : (t.takeBack f).Valid := by
  have hfree := ht.free.push (push_of_owned ht h howner)
  refine ⟨(size_takeBack t f).symm ▸ ht.size_le, ?_, hfree.nodup, ?_, hfree.listed, ?_⟩
  · rw [size_takeBack]
    exact hfree.size_listed
  · intro g
    rw [info?_takeBack h, FrameTable.takeBack, List.mem_cons]
    by_cases hg : g = f
    · simp [hg, FrameInfo.free]
    · simp [hg, ht.mem_stack]
  · intro g k hk hnone
    rw [info?_takeBack h] at hk
    by_cases hg : g = f
    · rw [if_pos hg] at hk
      exact (Option.some.inj hk) ▸ rfl
    · rw [if_neg hg] at hk
      exact ht.unpinned g k hk hnone

/-- A pool that has just been made is valid. -/
theorem Valid.ofSize {n : Nat} (h : n ≤ wordBound) : (ofSize n : FrameTable O).Valid := by
  have hinfo : ∀ f, (FrameTable.ofSize n : FrameTable O).info? f =
      if f.toNat < n then some .free else none := fun f => Directory.get?_ofSize n f
  have hsize : (FrameTable.ofSize n : FrameTable O).directory.size = n := by
    simp [FrameTable.ofSize, Directory.ofSize, Directory.size]
  have hfree : (FrameTable.ofSize n : FrameTable O).free.Valid n := FreeList.Valid.full h
  refine ⟨by rw [hsize]; exact h, hfree.size_listed.trans hsize.symm, hfree.nodup, ?_, hfree.listed,
    ?_⟩
  · intro f
    rw [hinfo]
    refine (FreeList.mem_toList_full h).trans ?_
    split <;> simp [*, FrameInfo.free]
  · intro f i hi _
    rw [hinfo] at hi
    split at hi
    · rw [← Option.some.inj hi]
      rfl
    · contradiction

end FrameTable

/-! ## The clock -/

namespace Directory

variable {O : Type}

/-- The clock may choose the frame: it is owned and unpinned. -/
def Evictable (d : Directory O) (f : FrameNumber) : Prop :=
  ∃ i, d.get? f = some i ∧ i.owner ≠ none ∧ i.pins = 0

/-- Two directories differ in referenced marks only. -/
def SameButMarks (d d' : Directory O) : Prop :=
  d.size = d'.size ∧ ∀ f, (d.get? f).map FrameInfo.unmarked = (d'.get? f).map FrameInfo.unmarked

theorem SameButMarks.trans {d d' d'' : Directory O} (h : SameButMarks d d')
    (h' : SameButMarks d' d'') : SameButMarks d d'' :=
  ⟨h.1.trans h'.1, fun f => (h.2 f).trans (h'.2 f)⟩

theorem SameButMarks.evictable {d d' : Directory O} (h : SameButMarks d d') {f : FrameNumber}
    (hf : d.Evictable f) : d'.Evictable f := by
  obtain ⟨i, hi, ho, hp⟩ := hf
  have hmap := h.2 f
  rw [hi, Option.map_some] at hmap
  obtain ⟨j, hj, hij⟩ := Option.map_eq_some_iff.mp hmap.symm
  obtain ⟨ho', -, hp'⟩ := FrameInfo.eq_of_unmarked_eq hij
  exact ⟨j, hj, by rwa [ho'], by rwa [hp']⟩

theorem SameButMarks.symm {d d' : Directory O} (h : SameButMarks d d') : SameButMarks d' d :=
  ⟨h.1.symm, fun f => (h.2 f).symm⟩

/-- Clearing a mark is no other change. -/
theorem sameButMarks_unmark {d : Directory O} {f : FrameNumber} {i : FrameInfo O}
    (h : d.get? f = some i) (b : Bool) : SameButMarks d (d.set f { i with referenced := b }) := by
  refine ⟨(size_set ..).symm, fun g => ?_⟩
  rw [get?_set, h, Option.map_some]
  by_cases hg : g = f
  · rw [if_pos hg, hg, h]
    rfl
  · rw [if_neg hg]

end Directory

namespace Clock

open Directory

variable {O : Type}

/-- What a frame is to the sweep: it is passed over, or the clock may choose it. -/
theorem passes_iff {d : Directory O} {f : FrameNumber} {i : FrameInfo O} (h : d.get? f = some i) :
    (i.isFree || i.isPinned) = false ↔ d.Evictable f := by
  simp only [Evictable, h, Option.some.injEq, FrameInfo.isFree, FrameInfo.isPinned,
    Bool.or_eq_false_iff, decide_eq_false_iff_not, exists_eq_left', Option.isNone_eq_false_iff,
    Option.isSome_iff_ne_none, Nat.not_lt, Nat.le_zero, ne_eq]

theorem sweep_sameButMarks (fs : List FrameNumber) (c : Option FrameNumber) (d : Directory O) :
    SameButMarks d (sweep fs c d).2 := by
  induction fs generalizing c d with
  | nil => exact ⟨rfl, fun _ => rfl⟩
  | cons f fs ih =>
    unfold sweep
    cases h : d.get? f with
    | none => exact ih c d
    | some i =>
      dsimp only
      split
      · exact ih c d
      · split
        · exact (sameButMarks_unmark h false).trans (ih _ _)
        · exact ⟨rfl, fun _ => rfl⟩

/-- The frame that a sweep ends with was remembered before, or the clock may choose it. -/
theorem evictable_of_sweep (fs : List FrameNumber) (c : Option FrameNumber) (d : Directory O)
    {f : FrameNumber} (h : (sweep fs c d).1 = some f) : c = some f ∨ d.Evictable f := by
  induction fs generalizing c d with
  | nil => exact Or.inl h
  | cons g fs ih =>
    unfold sweep at h
    cases hg : d.get? g with
    | none =>
      rw [hg] at h
      exact ih c d h
    | some i =>
      simp only [hg] at h
      split at h
      · exact ih c d h
      · next hpass =>
        have hev : d.Evictable g := (passes_iff hg).mp (by simpa using hpass)
        split at h
        · have hmarks := sameButMarks_unmark hg false
          cases ih _ _ h with
          | inl hc =>
            cases c with
            | none =>
              rw [Option.none_or, Option.some.injEq] at hc
              exact Or.inr (hc ▸ hev)
            | some c => exact Or.inl hc
          | inr hf => exact Or.inr (hmarks.symm.evictable hf)
        · exact Or.inr (Option.some.inj h ▸ hev)

/-- A sweep that ends with no frame met none that the clock may choose, and changed nothing. -/
theorem sweep_eq_none (fs : List FrameNumber) (c : Option FrameNumber) (d : Directory O)
    (h : (sweep fs c d).1 = none) :
    c = none ∧ (sweep fs c d).2 = d ∧ ∀ f ∈ fs, ¬ d.Evictable f := by
  induction fs generalizing c d with
  | nil => exact ⟨h, rfl, fun f hf => absurd hf List.not_mem_nil⟩
  | cons g fs ih =>
    unfold sweep at h ⊢
    cases hg : d.get? g with
    | none =>
      simp only [hg] at h
      obtain ⟨hc, hd, hfs⟩ := ih c d h
      refine ⟨hc, hd, fun f hf => ?_⟩
      cases List.mem_cons.mp hf with
      | inl he =>
        rintro ⟨i, hi, -⟩
        rw [he, hg] at hi
        contradiction
      | inr hm => exact hfs f hm
    | some i =>
      simp only [hg] at h ⊢
      split at h
      · next hpass =>
        obtain ⟨hc, hd, hfs⟩ := ih c d h
        rw [if_pos hpass]
        refine ⟨hc, hd, fun f hf => ?_⟩
        cases List.mem_cons.mp hf with
        | inl he =>
          intro hev
          rw [he, ← passes_iff hg, hpass] at hev
          contradiction
        | inr hm => exact hfs f hm
      · split at h
        · have hc := (ih _ _ h).1
          cases c <;> contradiction
        · contradiction

/-- A turn meets every frame. -/
theorem mem_turn {f : FrameNumber} {n : Nat} (hand : Nat) (h : f.toNat < n) :
    f ∈ turn hand n := by
  refine List.mem_map.mpr ⟨(f.toNat + (n - hand % n)) % n, ?_, ?_⟩
  · rw [List.mem_range]
    exact Nat.mod_lt _ (by omega)
  · have hmod : hand % n < n := Nat.mod_lt _ (by omega)
    have heq : (hand + (f.toNat + (n - hand % n)) % n) % n = f.toNat := by
      rw [Nat.add_mod, Nat.mod_mod, ← Nat.add_mod, ← Nat.mod_add_mod,
        show hand % n + (f.toNat + (n - hand % n)) = f.toNat + n by omega, Nat.add_mod_right,
        Nat.mod_eq_of_lt h]
    rw [heq, FrameNumber.ofNat_toNat]

end Clock

/-! ## The records as a list -/

namespace Directory

variable {O : Type}

/-- The list holds exactly the records of the frames there are. -/
theorem mem_toList {d : Directory O} (hsize : d.size ≤ wordBound) {f : FrameNumber}
    {i : FrameInfo O} : (f, i) ∈ d.toList ↔ d.get? f = some i := by
  simp only [toList, List.mem_map, Prod.exists, Prod.mk.injEq, List.mem_zipIdx_iff_getElem?,
    Array.getElem?_toList]
  constructor
  · rintro ⟨j, n, hn, rfl, rfl⟩
    have hlt : n < d.size := (Array.getElem?_eq_some_iff.mp hn).1
    rw [get?, FrameNumber.toNat_ofNat (by omega), hn]
  · intro h
    exact ⟨i, f.toNat, h, FrameNumber.ofNat_toNat f, rfl⟩

/-- Frames are listed in ascending order. -/
theorem ascending_toList {d : Directory O} (hsize : d.size ≤ wordBound) :
    d.toList.Pairwise fun a b => a.1.toNat < b.1.toNat := by
  have hlt : d.entries.toList.zipIdx.Pairwise fun a b => a.2 < b.2 := by
    rw [← List.pairwise_map (f := Prod.snd) (R := (· < ·)), List.zipIdx_map_snd]
    exact List.pairwise_lt_range'
  rw [toList, List.pairwise_map]
  refine hlt.imp_of_mem ?_
  intro a b _ hb hab
  have hbn : b.2 < d.size := (List.snd_lt_of_mem_zipIdx hb)
  rw [FrameNumber.toNat_ofNat (by omega), FrameNumber.toNat_ofNat (by omega)]
  exact hab

/-- Every frame is listed once. -/
theorem pairwise_toList {d : Directory O} (hsize : d.size ≤ wordBound) :
    d.toList.Pairwise fun a b => a.1 ≠ b.1 :=
  (ascending_toList hsize).imp fun hlt heq => Nat.ne_of_lt hlt (congrArg FrameNumber.toNat heq)

theorem mem_ownedBy [DecidableEq O] {d : Directory O} (hsize : d.size ≤ wordBound) {o : O}
    {f : FrameNumber} {page : PageNumber} :
    (f, page) ∈ d.ownedBy o ↔ ∃ i, d.get? f = some i ∧ i.owner = some o ∧ i.page = page := by
  simp only [ownedBy, List.mem_filterMap, Prod.exists, mem_toList hsize,
    Option.ite_none_right_eq_some, Option.some.injEq, Prod.mk.injEq]
  constructor
  · rintro ⟨g, i, hi, ho, rfl, rfl⟩
    exact ⟨i, hi, ho, rfl⟩
  · rintro ⟨i, hi, ho, rfl⟩
    exact ⟨f, i, hi, ho, rfl, rfl⟩

/-- The frames of an owner. -/
theorem mem_fst_ownedBy [DecidableEq O] {d : Directory O} (hsize : d.size ≤ wordBound) {o : O}
    {f : FrameNumber} : f ∈ (d.ownedBy o).map Prod.fst ↔
      ∃ i, d.get? f = some i ∧ i.owner = some o := by
  simp only [List.mem_map, Prod.exists, exists_and_right, exists_eq_right]
  constructor
  · rintro ⟨page, hpage⟩
    obtain ⟨i, hi, howner, -⟩ := (mem_ownedBy hsize).mp hpage
    exact ⟨i, hi, howner⟩
  · rintro ⟨i, hi, howner⟩
    exact ⟨i.page, (mem_ownedBy hsize).mpr ⟨i, hi, howner, rfl⟩⟩

/-- The frames of an owner are listed in ascending order. -/
theorem ascending_ownedBy [DecidableEq O] {d : Directory O} (hsize : d.size ≤ wordBound) (o : O) :
    ((d.ownedBy o).map Prod.fst).Pairwise fun f g => f.toNat < g.toNat := by
  rw [List.pairwise_map]
  refine (ascending_toList hsize).filterMap _ ?_
  intro a b hab x hx y hy
  simp only [Option.ite_none_right_eq_some, Option.some.injEq] at hx hy
  rw [← hx.2, ← hy.2]
  exact hab

/-- No frame is listed twice for its owner. -/
theorem nodup_ownedBy [DecidableEq O] {d : Directory O} (hsize : d.size ≤ wordBound) (o : O) :
    ((d.ownedBy o).map Prod.fst).Nodup :=
  (ascending_ownedBy hsize o).imp fun hlt heq =>
    Nat.ne_of_lt hlt (congrArg FrameNumber.toNat heq)

end Directory

/-! ## Frames without pins -/

namespace Directory

variable {O : Type}

/-- The number of frames without a pin, free or owned. -/
def idle (d : Directory O) : Nat := d.entries.countP fun i => i.pins = 0

/-- What another record for one frame does to the number of frames without a pin. -/
theorem idle_set {d : Directory O} {f : FrameNumber} {i : FrameInfo O} (h : d.get? f = some i)
    (j : FrameInfo O) :
    (d.set f j).idle + (if i.pins = 0 then 1 else 0) = d.idle + (if j.pins = 0 then 1 else 0) := by
  obtain ⟨hlt, hget⟩ := Array.getElem?_eq_some_iff.mp h
  have hle := Array.boole_getElem_le_countP (p := fun i : FrameInfo O => decide (i.pins = 0)) hlt
  rw [idle, set, Array.setIfInBounds, dif_pos hlt, Array.countP_set]
  simp only [hget, decide_eq_true_eq] at hle ⊢
  unfold idle
  omega

/-- No frame is without a pin exactly if all frames are owned and pinned. -/
theorem idle_eq_zero {d : Directory O} (hsize : d.size ≤ wordBound) :
    d.idle = 0 ↔ ∀ f i, d.get? f = some i → i.pins ≠ 0 := by
  rw [idle, Array.countP_eq_zero]
  constructor
  · intro h f i hi
    obtain ⟨hlt, hget⟩ := Array.getElem?_eq_some_iff.mp hi
    have hmem := h i (hget ▸ Array.getElem_mem hlt)
    simpa using hmem
  · intro h i hi
    obtain ⟨n, hn, hget⟩ := Array.mem_iff_getElem.mp hi
    have hn' : n < d.size := hn
    have hf : d.get? (FrameNumber.ofNat n) = some i := by
      rw [get?, FrameNumber.toNat_ofNat (by omega), Array.getElem?_eq_getElem hn, hget]
    simpa using h _ i hf

theorem SameButMarks.idle_eq {d d' : Directory O} (h : SameButMarks d d')
    (hsize : d.size ≤ wordBound) : d'.idle = d.idle := by
  have hmap : d'.entries.map FrameInfo.unmarked = d.entries.map FrameInfo.unmarked := by
    apply Array.ext_getElem?
    intro n
    rw [Array.getElem?_map, Array.getElem?_map]
    by_cases hn : n < d.size
    · have hf := h.2 (FrameNumber.ofNat n)
      rw [get?, get?, FrameNumber.toNat_ofNat (by omega)] at hf
      exact hf.symm
    · have hn' : ¬ n < d'.size := h.1 ▸ hn
      rw [Array.getElem?_eq_none (Nat.not_lt.mp hn), Array.getElem?_eq_none (Nat.not_lt.mp hn')]
  have hcount := congrArg (Array.countP fun i : FrameInfo O => decide (i.pins = 0)) hmap
  rw [Array.countP_map, Array.countP_map] at hcount
  exact hcount

end Directory

namespace FrameTable

open Directory

variable {O : Type}

/-- The clock chooses a frame that is owned and unpinned, and otherwise moves its hand and clears
marks. -/
theorem selectVictim_some {t t' : FrameTable O} {f : FrameNumber}
    (h : t.selectVictim = (some f, t')) :
    t.directory.Evictable f ∧ t'.free = t.free ∧ t'.waiters = t.waiters ∧
      SameButMarks t.directory t'.directory := by
  have hmarks :=
    Clock.sweep_sameButMarks (Clock.turn t.clock.hand t.directory.size) none t.directory
  have hvictim :=
    Clock.evictable_of_sweep (Clock.turn t.clock.hand t.directory.size) none t.directory (f := f)
  simp only [selectVictim, Clock.selectVictim] at h
  cases hs : Clock.sweep (Clock.turn t.clock.hand t.directory.size) none t.directory with
  | mk victim d =>
    rw [hs] at h hmarks hvictim
    cases victim with
    | none => simp only [Prod.mk.injEq, reduceCtorEq, false_and] at h
    | some g =>
      simp only [Prod.mk.injEq, Option.some.injEq] at h
      obtain ⟨rfl, rfl⟩ := h
      exact ⟨(hvictim rfl).resolve_left (by simp), rfl, rfl, hmarks⟩

/-- The clock chooses no frame only if every frame is free or pinned, and then nothing changes. -/
theorem selectVictim_none {t t' : FrameTable O} (h : t.selectVictim = (none, t')) :
    t' = t ∧ ∀ f, ¬ t.directory.Evictable f := by
  have hnone := Clock.sweep_eq_none (Clock.turn t.clock.hand t.directory.size) none t.directory
  simp only [selectVictim, Clock.selectVictim] at h
  cases hs : Clock.sweep (Clock.turn t.clock.hand t.directory.size) none t.directory with
  | mk victim d =>
    rw [hs] at h hnone
    cases victim with
    | some g => simp only [Prod.mk.injEq, reduceCtorEq, false_and] at h
    | none =>
      simp only [Prod.mk.injEq, true_and] at h
      refine ⟨h.symm, fun f hf => ?_⟩
      obtain ⟨i, hi, -⟩ := id hf
      exact (hnone rfl).2.2 f (Clock.mem_turn _ (lt_of_info? (t := t) hi)) hf

/-! ## What the operations do to the number of frames without a pin -/

theorem idle_handOut {t : FrameTable O} {f : FrameNumber} {i : FrameInfo O}
    (h : t.info? f = some i) (hpins : i.pins = 0) (owner : O) (page : PageNumber) :
    (t.handOut f owner page).directory.idle + 1 = t.directory.idle := by
  have hset := idle_set (d := t.directory) h ⟨some owner, page, 1, false⟩
  rw [if_pos hpins, if_neg Nat.one_ne_zero, Nat.add_zero] at hset
  exact hset

theorem idle_takeBack {t : FrameTable O} {f : FrameNumber} {i : FrameInfo O}
    (h : t.info? f = some i) (hpins : i.pins = 0) :
    (t.takeBack f).directory.idle = t.directory.idle := by
  have hset := idle_set (d := t.directory) h .free
  rw [if_pos hpins, if_pos (show (FrameInfo.free (O := O)).pins = 0 from rfl),
    Nat.add_right_cancel_iff] at hset
  exact hset

/-- Another pin takes the frame from the clock, unless it was pinned already. -/
theorem idle_addPin {t : FrameTable O} {f : FrameNumber} {i : FrameInfo O}
    (h : t.info? f = some i) :
    (t.withInfo f { i with pins := i.pins + 1 }).directory.idle + (if i.pins = 0 then 1 else 0) =
      t.directory.idle := by
  have hset := idle_set (d := t.directory) h { i with pins := i.pins + 1 }
  rw [if_neg (Nat.succ_ne_zero i.pins), Nat.add_zero] at hset
  exact hset

/-- The last pin gives a frame back to the clock. -/
theorem idle_dropPin {t : FrameTable O} {f : FrameNumber} {i : FrameInfo O}
    (h : t.info? f = some i) (hpins : i.pins ≠ 0) :
    (t.dropPin f i).directory.idle = t.directory.idle + (if i.pins = 1 then 1 else 0) := by
  have hset := idle_set (d := t.directory) h { i with pins := i.pins - 1 }
  rw [if_neg hpins, Nat.add_zero] at hset
  have hdir : (t.dropPin f i).directory = t.directory.set f { i with pins := i.pins - 1 } := by
    unfold dropPin
    split <;> rfl
  rw [hdir, hset]
  have hone : i.pins - 1 = 0 ↔ i.pins = 1 := by omega
  simp only [hone]

theorem waiters_dropPin (t : FrameTable O) (f : FrameNumber) (i : FrameInfo O) :
    (t.dropPin f i).waiters = if 1 < i.pins then t.waiters else t.waiters.wakeOne.2 := by
  unfold dropPin
  split <;> rfl

end FrameTable

end DemandPaging
