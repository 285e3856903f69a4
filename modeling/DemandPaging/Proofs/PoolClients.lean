import DemandPaging.Frames.Operation
import DemandPaging.Proofs.Consistency

/-!
# The pool in the hands of any client

Nothing is assumed here of the memory manager: whoever holds the pool calls it in any order and with
any arguments. A call either does its work or is refused for one of a few causes
(`FrameTable.Refuses`), and `FrameTable.Does` lists all that can come of it. Taken statement by
statement a call is as good as the one function that the memory manager runs, since no statement
fails after another has changed the pool (`FrameTable.Valid.call_eq`). So the pool stays valid along
every history.
-/

namespace DemandPaging

namespace FrameTable

open Directory

variable {O : Type} {t t' : FrameTable O} {op : Operation O} {n : Nat} {f : FrameNumber}
  {i : FrameInfo O} {v : Violation}

/-! ## What can come of a call -/

/-- Why a call violates an assertion. -/
inductive Refuses (t : FrameTable O) : Operation O → Violation → Prop
  /-- There is no such frame. -/
  | absent {op : Operation O} {f : FrameNumber} (frame : op.frame? = some f)
      (size_le : t.frameCount ≤ f.toNat) : t.Refuses op .outOfBounds
  | releasedWhileFree {f : FrameNumber} {i : FrameInfo O} (info : t.info? f = some i)
      (free : i.owner = none) : t.Refuses (.release f) (.releasedWhileFree f)
  | releasedWhilePinned {f : FrameNumber} {i : FrameInfo O} (info : t.info? f = some i)
      (owned : i.owner ≠ none) (pins : i.pins ≠ 0) :
      t.Refuses (.release f) (.releasedWhilePinned f)
  | pinnedWhileFree {f : FrameNumber} {i : FrameInfo O} (info : t.info? f = some i)
      (free : i.owner = none) : t.Refuses (.pin f) (.pinnedWhileFree f)
  /-- Pins are counted in 32 bits. -/
  | pinnedTooOften {f : FrameNumber} {i : FrameInfo O} (info : t.info? f = some i)
      (owned : i.owner ≠ none) (pins : i.pins = FrameInfo.maxPins) : t.Refuses (.pin f) .overflow
  | unpinnedWhileNotPinned {f : FrameNumber} {i : FrameInfo O} (info : t.info? f = some i)
      (pins : i.pins = 0) : t.Refuses (.unpin f) (.unpinnedWhileNotPinned f)

/-- All that can come of a call. -/
inductive Does (t : FrameTable O) :
    Operation O → Except Violation (Reply × FrameTable O) → Prop
  | foundNone {owner : O} {page : PageNumber} (stack : t.free.stack = []) :
      t.Does (.allocate owner page) (.ok (.frame none, t))
  | handedOut {owner : O} {page : PageNumber} {f : FrameNumber} {fs : List FrameNumber}
      (stack : t.free.stack = f :: fs) :
      t.Does (.allocate owner page) (.ok (.frame (some f), t.handOut f owner page))
  | tookBack {f : FrameNumber} {i : FrameInfo O} (info : t.info? f = some i)
      (owned : i.owner ≠ none) (pins : i.pins = 0) :
      t.Does (.release f) (.ok (.done, t.takeBack f))
  | pinned {f : FrameNumber} {i : FrameInfo O} (info : t.info? f = some i)
      (owned : i.owner ≠ none) (pins : i.pins < FrameInfo.maxPins) :
      t.Does (.pin f) (.ok (.done, t.withInfo f { i with pins := i.pins + 1 }))
  | unpinned {f : FrameNumber} {i : FrameInfo O} (info : t.info? f = some i)
      (pins : i.pins ≠ 0) : t.Does (.unpin f)
        (.ok (.woke (decide (i.pins = 1) && !t.waiters.queue.isEmpty), t.dropPin f i))
  | marked {f : FrameNumber} {i : FrameInfo O} {b : Bool} (info : t.info? f = some i) :
      t.Does (.setReferenced f b) (.ok (.done, t.withInfo f { i with referenced := b }))
  | chose {victim : Option FrameNumber} {t' : FrameTable O} (run : t.selectVictim = (victim, t'))
      (free : t'.free = t.free) (waiters : t'.waiters = t.waiters)
      (marks : SameButMarks t.directory t'.directory) :
      t.Does .selectVictim (.ok (.frame victim, t'))
  | waited {op : WaitRoom.Operation} : t.Does (.room op)
        (.ok ((op.apply t.waiters).1, { t with waiters := (op.apply t.waiters).2 }))
  | refused {op : Operation O} {v : Violation} (refuses : t.Refuses op v) : t.Does op (.error v)

/-- What the clients of a pool of `n` frames keep: it is valid, and pins fit their counter. -/
structure Intact (n : Nat) (t : FrameTable O) : Prop where
  valid : t.Valid
  frameCount : t.frameCount = n
  pins_le : ∀ f i, t.info? f = some i → i.pins ≤ FrameInfo.maxPins

theorem info?_eq_none_iff : t.info? f = none ↔ t.frameCount ≤ f.toNat := Array.getElem?_eq_none_iff

/-- A refused call ends with the assertion that it violates. -/
theorem Refuses.apply (h : t.Refuses op v) : op.apply t = .error v := by
  cases h with
  | absent frame size_le =>
    have hnone : t.directory.get? _ = none := info?_eq_none_iff.mpr size_le
    cases op <;> cases frame <;>
      simp [Operation.apply, release, pin, unpin, setReferenced, update, hnone] <;> rfl
  | releasedWhileFree info free =>
    have hinfo : t.directory.get? _ = _ := info
    simp [Operation.apply, release, hinfo, FrameInfo.isFree, free, Except.map]
  | releasedWhilePinned info owned pins =>
    rw [Operation.apply, release_of_pinned info owned pins]
    rfl
  | pinnedWhileFree info free =>
    have hinfo : t.directory.get? _ = _ := info
    simp [Operation.apply, pin, hinfo, FrameInfo.isFree, free, Except.map]
  | pinnedTooOften info owned pins =>
    rw [Operation.apply, pin_of_owned info owned, if_pos (Nat.le_of_eq pins.symm)]
    rfl
  | unpinnedWhileNotPinned info pins =>
    have hinfo : t.directory.get? _ = _ := info
    simp [Operation.apply, unpin, hinfo, FrameInfo.isPinned, pins, Except.map]

/-- **A call does its work or is refused.** -/
theorem Intact.does (h : Intact n t) (op : Operation O) : t.Does op (op.apply t) := by
  have refused : ∀ {v}, t.Refuses op v → t.Does op (op.apply t) := fun hv => by
    rw [hv.apply]
    exact .refused hv
  cases op with
  | allocate owner page =>
    cases hstack : t.free.stack with
    | nil =>
      rw [Operation.apply, allocate_of_nil hstack]
      exact .foundNone hstack
    | cons f fs =>
      rw [Operation.apply, allocate_of_cons h.valid hstack]
      exact .handedOut hstack
  | release f =>
    cases hinfo : t.info? f with
    | none => exact refused (.absent rfl (info?_eq_none_iff.mp hinfo))
    | some i =>
      by_cases howner : i.owner = none
      · exact refused (.releasedWhileFree hinfo howner)
      · by_cases hpins : i.pins = 0
        · rw [Operation.apply, release_of_unpinned h.valid hinfo howner hpins]
          exact .tookBack hinfo howner hpins
        · exact refused (.releasedWhilePinned hinfo howner hpins)
  | pin f =>
    cases hinfo : t.info? f with
    | none => exact refused (.absent rfl (info?_eq_none_iff.mp hinfo))
    | some i =>
      by_cases howner : i.owner = none
      · exact refused (.pinnedWhileFree hinfo howner)
      · have hle := h.pins_le f i hinfo
        by_cases hpins : i.pins = FrameInfo.maxPins
        · exact refused (.pinnedTooOften hinfo howner hpins)
        · rw [Operation.apply, pin_of_owned hinfo howner, if_neg (by omega)]
          exact .pinned hinfo howner (by omega)
  | unpin f =>
    cases hinfo : t.info? f with
    | none => exact refused (.absent rfl (info?_eq_none_iff.mp hinfo))
    | some i =>
      by_cases hpins : i.pins = 0
      · exact refused (.unpinnedWhileNotPinned hinfo hpins)
      · rw [Operation.apply, unpin_eq_of_pinned hinfo hpins]
        exact .unpinned hinfo hpins
  | setReferenced f b =>
    cases hinfo : t.info? f with
    | none => exact refused (.absent rfl (info?_eq_none_iff.mp hinfo))
    | some i =>
      rw [Operation.apply, setReferenced_of_info? hinfo]
      exact .marked hinfo
  | selectVictim =>
    cases hrun : t.selectVictim with
    | mk victim t' =>
      rw [Operation.apply, hrun]
      cases victim with
      | none =>
        obtain ⟨rfl, -⟩ := selectVictim_none hrun
        exact .chose hrun rfl rfl ⟨rfl, fun _ => rfl⟩
      | some f =>
        obtain ⟨-, hfree, hwaiters, hmarks⟩ := selectVictim_some hrun
        exact .chose hrun hfree hwaiters hmarks
  | room op => exact .waited

/-! ## A call statement by statement -/

/-- The outcome of a call that leaves the pool alone if it is refused. -/
def settle (t : FrameTable O) :
    Except Violation (Reply × FrameTable O) → Except Violation Reply × FrameTable O
  | .ok (reply, t') => (.ok reply, t')
  | .error v => (.error v, t)

theorem run_ofExcept_ok {α : Type} (a : α) (t : FrameTable O) :
    (ofExcept (.ok a : Except Violation α) : EStateM Violation (FrameTable O) α).run t = .ok a t :=
  rfl

/-- Nothing is refused after the frame left the free list. -/
theorem Valid.call_allocate (ht : t.Valid) (owner : O) (page : PageNumber) :
    (Operation.allocate owner page).call t =
      t.settle ((Operation.allocate owner page).apply t) := by
  cases hstack : t.free.stack with
  | nil =>
    rw [Operation.apply, allocate_of_nil hstack]
    simp only [Operation.call, Operation.perform, EStateM.run_bind, EStateM.run_get, FreeList.pop?,
      hstack]
    rfl
  | cons f fs =>
    rw [Operation.apply, allocate_of_cons ht hstack]
    simp only [Operation.call, Operation.perform, EStateM.run_bind, EStateM.run_get, FreeList.pop?,
      hstack, EStateM.run_modify, assign_of_cons ht hstack, run_ofExcept_ok]
    simp only [FrameTable.handOut, hstack, List.tail_cons]
    rfl

/-- Nothing is refused after the frame lost its owner. -/
theorem Valid.call_release (ht : t.Valid) (f : FrameNumber) :
    (Operation.release f).call t = t.settle ((Operation.release f).apply t) := by
  simp only [Operation.call, Operation.perform, EStateM.run_bind, EStateM.run_get]
  cases hinfo : t.info? f with
  | none =>
    rw [(Refuses.absent rfl (info?_eq_none_iff.mp hinfo)).apply]
    rfl
  | some i =>
    by_cases howner : i.owner = none
    · simp only [(Refuses.releasedWhileFree hinfo howner).apply, FrameInfo.isFree, howner]
      rfl
    · have hfree := FrameInfo.isFree_eq_false howner
      by_cases hpins : i.pins = 0
      · have hpinned : i.isPinned = false := by simp [FrameInfo.isPinned, hpins]
        have hinfo' : t.directory.get? f = some i := hinfo
        have hclear : t.directory.clear f = .ok (t.takeBack f).directory := by
          simp only [Directory.clear, Directory.update, hinfo', FrameTable.takeBack]
        rw [Operation.apply, release_of_unpinned ht hinfo howner hpins]
        simp only [hfree, hpinned, Bool.false_eq_true, if_false, EStateM.run_bind, EStateM.run_get,
          EStateM.run_modify, hclear, run_ofExcept_ok, push_of_owned ht hinfo howner]
        rfl
      · have hpinned : i.isPinned = true := by
          simp only [FrameInfo.isPinned, decide_eq_true_eq]
          omega
        simp only [(Refuses.releasedWhilePinned hinfo howner hpins).apply, hfree, hpinned]
        rfl

theorem Valid.call_eq (ht : t.Valid) (op : Operation O) :
    op.call t = t.settle (op.apply t) := by
  cases op with
  | allocate owner page => exact ht.call_allocate owner page
  | release f => exact ht.call_release f
  | pin f =>
    simp only [Operation.call, Operation.perform, Operation.apply, FrameTable.pin, info?,
      EStateM.run_bind, EStateM.run_get]
    cases t.directory.get? f with
    | none => rfl
    | some i =>
      dsimp only
      cases i.isFree with
      | true => rfl
      | false => by_cases hpins : FrameInfo.maxPins ≤ i.pins <;> simp only [hpins] <;> rfl
  | unpin f =>
    simp only [Operation.call, Operation.perform, Operation.apply, FrameTable.unpin, info?,
      EStateM.run_bind, EStateM.run_get]
    cases t.directory.get? f with
    | none => rfl
    | some i =>
      dsimp only
      cases i.isPinned with
      | true => by_cases hlast : 1 < i.pins <;> simp only [hlast] <;> rfl
      | false => rfl
  | setReferenced f b =>
    simp only [Operation.call, Operation.perform, Operation.apply, FrameTable.setReferenced,
      EStateM.run_bind, EStateM.run_get]
    cases t.directory.update f fun i => { i with referenced := b } <;> rfl
  | selectVictim => rfl
  | room op => rfl

/-! ## What a client keeps -/

theorem Intact.ofSize (hn : n ≤ wordBound) : (FrameTable.ofSize n : FrameTable O).Intact n where
  valid := .ofSize hn
  frameCount := by simp [FrameTable.ofSize, FrameTable.frameCount, Directory.ofSize, Directory.size]
  pins_le f i hi := by
    have hi' : (Directory.ofSize n : Directory O).get? f = some i := hi
    rw [get?_ofSize, Option.ite_none_right_eq_some] at hi'
    rw [← Option.some.inj hi'.2]
    exact Nat.zero_le _

/-- Marks and the queue do not matter. -/
theorem Intact.of_marks (h : Intact n t) (hfree : t'.free = t.free)
    (hmarks : SameButMarks t.directory t'.directory) : Intact n t' where
  valid := h.valid.of_info hfree hmarks.1.symm fun f => (hmarks.2 f).symm
  frameCount := hmarks.1.symm.trans h.frameCount
  pins_le f i hi := by
    have hmark := hmarks.2 f
    rw [show t'.directory.get? f = some i from hi, Option.map_some, Option.map_eq_some_iff] at hmark
    obtain ⟨j, hj, hij⟩ := hmark
    rw [← (FrameInfo.eq_of_unmarked_eq hij).2.2]
    exact h.pins_le f j hj

/-- The pins of one frame have changed. -/
theorem Intact.of_info (h : Intact n t) (hvalid : t'.Valid)
    (hsize : t'.directory.size = t.directory.size) {j : FrameInfo O}
    (hinfo : ∀ g, t'.info? g = if g = f then some j else t.info? g)
    (hpins : j.pins ≤ FrameInfo.maxPins) : Intact n t' where
  valid := hvalid
  frameCount := hsize.trans h.frameCount
  pins_le g k hk := by
    rw [hinfo] at hk
    split at hk
    · rw [← Option.some.inj hk]
      exact hpins
    · exact h.pins_le g k hk

/-- Whatever is done to an intact pool, it stays intact. -/
theorem Does.intact {reply : Reply} (hdoes : t.Does op (.ok (reply, t'))) (h : Intact n t) :
    Intact n t' := by
  cases hdoes with
  | foundNone => exact h
  | handedOut stack =>
    obtain ⟨i, hi, -⟩ := (h.valid.mem_stack _).mp (by rw [stack]; exact List.mem_cons_self)
    exact h.of_info (h.valid.handOut stack _ _) (size_handOut ..) (info?_handOut hi _ _)
      (show 1 ≤ FrameInfo.maxPins by decide)
  | tookBack info owned pins =>
    exact h.of_info (h.valid.takeBack info owned) (size_takeBack ..) (info?_takeBack info)
      (Nat.zero_le _)
  | pinned info owned pins =>
    exact h.of_info (h.valid.withInfo info owned owned) (size_withInfo ..)
      (info?_withInfo info _) pins
  | unpinned info pins =>
    have hle := h.pins_le _ _ info
    have howned := fun hnone => pins (h.valid.unpinned _ _ info hnone)
    exact h.of_info (h.valid.dropPin info howned) (size_dropPin ..) (info?_dropPin info)
      (Nat.le_trans (Nat.sub_le ..) hle)
  | marked info => exact h.of_marks rfl (sameButMarks_unmark info _)
  | chose run free waiters marks => exact h.of_marks free marks
  | waited => exact h.of_marks rfl ⟨rfl, fun _ => rfl⟩

theorem Intact.call_error_iff (h : Intact n t) :
    op.call t = (.error v, t') ↔ t.Refuses op v ∧ t' = t := by
  rw [h.valid.call_eq]
  constructor
  · intro hcall
    have hdoes := h.does op
    cases happly : op.apply t with
    | ok done =>
      rw [happly] at hcall
      cases hcall
    | error w =>
      rw [happly] at hcall hdoes
      cases hcall
      cases hdoes with
      | refused refuses => exact ⟨refuses, rfl⟩
  · rintro ⟨hrefuses, rfl⟩
    rw [hrefuses.apply]
    rfl

/-- A call that is answered has done its work. -/
theorem Intact.does_of_call (h : Intact n t) {reply : Reply} (hcall : op.call t = (.ok reply, t')) :
    t.Does op (.ok (reply, t')) := by
  have hdoes := h.does op
  rw [h.valid.call_eq] at hcall
  cases happly : op.apply t with
  | ok done =>
    rw [happly] at hcall hdoes
    cases hcall
    exact hdoes
  | error w =>
    rw [happly] at hcall
    cases hcall

/-- **One call of an intact pool** leaves an intact pool. -/
theorem Intact.call (h : Intact n t) {outcome : Except Violation Reply}
    (hcall : op.call t = (outcome, t')) : Intact n t' := by
  cases outcome with
  | ok reply => exact (h.does_of_call hcall).intact h
  | error v => exact (h.call_error_iff.mp hcall).2 ▸ h

/-- **Any number of calls** leave an intact pool. -/
theorem History.intact {past : List (Entry O)} (h : History (.ofSize n) past t)
    (hn : n ≤ wordBound) : Intact n t := by
  induction h with
  | start => exact .ofSize hn
  | call _ _ hcall ih => exact ih.call hcall

/-- Calls that are replayed are a history. -/
theorem History.replay {t₀ : FrameTable O} {past more : List (Entry O)} {ops : List (Operation O)}
    (h : History t₀ past t) (hreplay : t.replay? ops = some (more, t')) :
    History t₀ (past ++ more) t' := by
  induction ops generalizing past t more with
  | nil =>
    cases hreplay
    rwa [List.append_nil]
  | cons op ops ih =>
    rw [replay?, Option.ite_none_right_eq_some, Option.map_eq_some_iff] at hreplay
    obtain ⟨hnames, ⟨rest, t''⟩, hrest, heq⟩ := hreplay
    cases heq
    rw [List.append_cons]
    exact ih (h.call hnames rfl) hrest

/-! ## Main statement -/

/-- A frame is listed once if it is free, and not at all if it is owned. -/
theorem Valid.count_free (ht : t.Valid) (hi : t.info? f = some i) :
    t.free.toList.count f = if i.isFree = true then 1 else 0 := by
  have hmem : f ∈ t.free.stack ↔ i.isFree = true := by
    rw [← ht.listed, ht.contains_eq_isFree hi]
  split
  · next hfree => exact List.count_eq_one_of_mem ht.nodup (hmem.mpr hfree)
  · next hfree => exact List.count_eq_zero.mpr fun h => hfree (hmem.mp h)

/-- A frame is handed out that was free, unless there is none. -/
theorem Intact.call_allocate (h : Intact n t) (owner : O) (page : PageNumber) :
    ∃ victim t', (Operation.allocate owner page).call t = (.ok (.frame victim), t') ∧
      (victim = none ↔ ∀ f i, t.info? f = some i → i.isFree = false) ∧
      ∀ f, victim = some f → (∃ i, t.info? f = some i ∧ i.isFree = true) ∧
        t'.info? f = some ⟨some owner, page, 1, false⟩ := by
  rw [h.valid.call_eq]
  have hfree : ∀ f i, t.info? f = some i → (i.isFree = true ↔ f ∈ t.free.stack) := fun f i hi => by
    rw [← h.valid.listed, h.valid.contains_eq_isFree hi]
  cases hstack : t.free.stack with
  | nil =>
    rw [Operation.apply, allocate_of_nil hstack]
    refine ⟨none, t, rfl, iff_of_true rfl fun f i hi => ?_, nofun⟩
    rw [Bool.eq_false_iff, ne_eq, hfree f i hi, hstack]
    exact List.not_mem_nil
  | cons f fs =>
    have hmem : f ∈ t.free.stack := by rw [hstack]; exact List.mem_cons_self
    obtain ⟨i, hi, -⟩ := (h.valid.mem_stack f).mp hmem
    rw [Operation.apply, allocate_of_cons h.valid hstack]
    refine ⟨some f, _, rfl, iff_of_false nofun fun hall => ?_, fun g hg => ?_⟩
    · exact Bool.false_ne_true ((hall f i hi).symm.trans ((hfree f i hi).mpr hmem))
    · cases hg
      exact ⟨⟨i, hi, (hfree f i hi).mpr hmem⟩, by rw [info?_handOut hi, if_pos rfl]⟩

/-- **The pool is safe under any client.** After any sequence of calls with any arguments, calls
that violate an assertion included, the check passes. Every frame is either free, and then listed
once, or owned, and then not listed, and free and owned frames add up to all frames. The next call,
whatever it is, does the following. An allocation hands out a frame that was free, which is now
owned and pinned once, and hands out none exactly if no frame is free. The clock never chooses a
frame that is free or pinned. A call violates an assertion exactly for one of the causes of
`Refuses`, and then the pool is what it was, although the call is taken statement by statement; so
it comes to the same as the function of the pool. -/
theorem History.safe {past : List (Entry O)} (h : History (.ofSize n) past t)
    (hn : n ≤ wordBound) :
    t.check = .ok () ∧
    (∀ f : FrameNumber, f.toNat < n → ∃ i, t.info? f = some i ∧ t.free.contains f = i.isFree ∧
      t.free.toList.count f = if i.isFree = true then 1 else 0) ∧
    t.freeCount + t.ownedCount = n ∧
    (∀ owner page, ∃ victim t', (Operation.allocate owner page).call t = (.ok (.frame victim), t') ∧
      (victim = none ↔ ∀ f i, t.info? f = some i → i.isFree = false) ∧
      ∀ f, victim = some f → (∃ i, t.info? f = some i ∧ i.isFree = true) ∧
        t'.info? f = some ⟨some owner, page, 1, false⟩) ∧
    (∀ f t', Operation.selectVictim.call t = (.ok (.frame (some f)), t') →
      ∃ i, t.info? f = some i ∧ i.isFree = false ∧ i.isPinned = false) ∧
    (∀ (op : Operation O) v t', op.call t = (.error v, t') ↔ t.Refuses op v ∧ t' = t) ∧
    ∀ op : Operation O, op.call t = t.settle (op.apply t) := by
  have hintact := h.intact hn
  have hvalid := hintact.valid
  refine ⟨hvalid.check, fun f hf => ?_, ?_, hintact.call_allocate, fun f t' hcall => ?_,
    fun op v t' => hintact.call_error_iff, hvalid.call_eq⟩
  · have hlt : f.toNat < t.directory.size := Nat.lt_of_lt_of_eq hf hintact.frameCount.symm
    have hi : t.info? f = some t.directory.entries[f.toNat] := Array.getElem?_eq_getElem hlt
    exact ⟨_, hi, hvalid.contains_eq_isFree hi, hvalid.count_free hi⟩
  · rw [hvalid.freeCount_add_ownedCount, hintact.frameCount]
  · cases hintact.does_of_call hcall with
    | chose run =>
      obtain ⟨⟨i, hi, howner, hpins⟩, -⟩ := selectVictim_some run
      exact ⟨i, hi, FrameInfo.isFree_eq_false howner, by simp [FrameInfo.isPinned, hpins]⟩

/-- Calls of a client that makes every mistake. -/
def mistakes : List (Entry Nat) :=
  [⟨.release (.ofNat 5), .error .outOfBounds⟩,
    ⟨.allocate 7 (.ofNat 3), .ok (.frame (some (.ofNat 0)))⟩,
    ⟨.release (.ofNat 0), .error (.releasedWhilePinned (.ofNat 0))⟩,
    ⟨.pin (.ofNat 1), .error (.pinnedWhileFree (.ofNat 1))⟩,
    ⟨.unpin (.ofNat 0), .ok (.woke false)⟩,
    ⟨.unpin (.ofNat 0), .error (.unpinnedWhileNotPinned (.ofNat 0))⟩,
    ⟨.selectVictim, .ok (.frame (some (.ofNat 0)))⟩,
    ⟨.release (.ofNat 0), .ok .done⟩,
    ⟨.release (.ofNat 0), .error (.releasedWhileFree (.ofNat 0))⟩]

/-- The pool they leave behind: only the hand of the clock has moved. -/
def mistreated : FrameTable Nat := { FrameTable.ofSize 2 with clock := ⟨1⟩ }

theorem history_mistakes : History (.ofSize 2) mistakes mistreated :=
  History.start.replay
    (rfl : replay? (.ofSize 2) (mistakes.map Entry.operation) = some (mistakes, mistreated))

theorem safe_mistreated :
    History (.ofSize 2) mistakes mistreated ∧ mistreated.check = .ok () ∧
    mistreated.freeCount + mistreated.ownedCount = 2 ∧
    (Operation.pin (.ofNat 5)).call mistreated = (.error .outOfBounds, mistreated) := by
  obtain ⟨hcheck, -, hcount, -, -, hrefuses, -⟩ := history_mistakes.safe (by decide)
  exact ⟨history_mistakes, hcheck, hcount,
    (hrefuses _ _ _).mpr ⟨.absent rfl (by decide), rfl⟩⟩

end FrameTable

end DemandPaging
