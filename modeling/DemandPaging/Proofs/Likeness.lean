import DemandPaging.Proofs.SingleCalls

/-!
# Machines that look alike

Two machines look alike (`Machine.Like`) if they differ at most in what no attempt depends on: the log,
the calls that wait, and the count of waits. A comparison may also leave out the marks of the clock; it
then depends on the marks only which frame is the victim. Actions that differ in nothing else do the
same on machines that look alike (`Corresponds`).
-/

namespace DemandPaging

open Machine

/-! ## What is seen -/

section Seen

variable {O : Type} (marks : Bool)

/-- A record without its mark, unless marks are looked at. -/
def FrameInfo.seen (i : FrameInfo O) : FrameInfo O := { i with referenced := marks && i.referenced }

def PageEntry.seen (e : PageEntry) : PageEntry := e.put .referenced (marks && e.referenced)

def Directory.seen (d : Directory O) : Directory O := ⟨d.entries.map (·.seen marks)⟩

def PageTable.seen (t : PageTable) : PageTable := ⟨t.entries.map (·.seen marks)⟩

/-- The pool without those who wait for a frame. -/
def FrameTable.seen (t : FrameTable O) : FrameTable O :=
  { t with directory := t.directory.seen marks, waiters := .empty }

def Config.seen (c : Config) : Config :=
  { c with referenceOnInstall := marks && c.referenceOnInstall }

/-- The counts of what a kernel did, but for the waits. -/
def Stats.seen (s : Stats) : Stats := { s with blocks := 0 }

/-- The machine as far as it is looked at. -/
def Machine.seen (m : Machine) : Machine where
  kernel := { m.kernel with
    config := m.kernel.config.seen marks
    frames := m.kernel.frames.seen marks
    stats := m.kernel.stats.seen }
  tables := m.tables.map (·.seen marks)
  log := #[]

/-- As far as it is looked at, the machines are the same. -/
def Machine.Like (m m' : Machine) : Prop := m.seen marks = m'.seen marks

end Seen

section Parts

variable {O : Type} {marks : Bool}

@[simp] theorem FrameInfo.isFree_seen (i : FrameInfo O) : (i.seen marks).isFree = i.isFree := rfl

@[simp] theorem FrameInfo.isPinned_seen (i : FrameInfo O) : (i.seen marks).isPinned = i.isPinned := rfl

@[simp] theorem FrameInfo.pins_seen (i : FrameInfo O) : (i.seen marks).pins = i.pins := rfl

@[simp] theorem FrameInfo.seen_true (i : FrameInfo O) : i.seen true = i := rfl

@[simp] theorem FrameInfo.seen_unmarked (owner : Option O) (page : PageNumber) (pins : Nat) :
    FrameInfo.seen marks ⟨owner, page, pins, false⟩ = ⟨owner, page, pins, false⟩ := by
  simp [FrameInfo.seen]

@[simp] theorem FrameInfo.seen_repinned (i : FrameInfo O) (n : Nat) :
    FrameInfo.seen marks { i with pins := n } = { i.seen marks with pins := n } := rfl

@[simp] theorem FrameInfo.seen_remarked (i : FrameInfo O) (b : Bool) :
    FrameInfo.seen marks { i with referenced := b } =
      { i.seen marks with referenced := marks && b } := rfl

@[simp] theorem FrameInfo.seen_free : (FrameInfo.free : FrameInfo O).seen marks = .free :=
  FrameInfo.seen_unmarked ..

@[simp] theorem PageEntry.seen_true (e : PageEntry) : e.seen true = e :=
  PageEntry.ext_fields (fun f => by by_cases h : f = .referenced <;> simp [PageEntry.seen, h])
    (by simp [PageEntry.seen]) (by simp [PageEntry.seen])

/-- Entries look alike if they have the same fields, but for the mark, unless it is looked at. -/
theorem PageEntry.seen_eq_iff {e e' : PageEntry} : e.seen marks = e'.seen marks ↔
    (∀ f, f ≠ .referenced → e.has f = e'.has f) ∧
      (marks && e.referenced) = (marks && e'.referenced) ∧ e.system = e'.system ∧
      e.frameBits = e'.frameBits := by
  refine ⟨fun h => ⟨fun f hf => ?_, ?_, ?_, ?_⟩, fun ⟨hflags, hmark, hsystem, hframe⟩ => ?_⟩
  · simpa [seen, hf] using congrArg (·.has f) h
  · simpa [seen] using congrArg (·.referenced) h
  · simpa [seen] using congrArg (·.system) h
  · simpa [seen] using congrArg (·.frameBits) h
  · refine ext_fields (fun f => ?_) (by simpa [seen] using hsystem) (by simpa [seen] using hframe)
    by_cases hf : f = .referenced
    · simpa [seen, hf] using hmark
    · simpa [seen, hf] using hflags f hf

section Entries

variable {e e' : PageEntry} (h : e.seen marks = e'.seen marks)
include h

theorem PageEntry.valid_of_seen : e.valid = e'.valid := (seen_eq_iff.mp h).1 .valid (by decide)

theorem PageEntry.dirty_of_seen : e.dirty = e'.dirty := (seen_eq_iff.mp h).1 .dirty (by decide)

theorem PageEntry.readOnly_of_seen : e.readOnly = e'.readOnly :=
  (seen_eq_iff.mp h).1 .readOnly (by decide)

theorem PageEntry.frame?_of_seen : e.frame? = e'.frame? := by
  rw [frame?, frame?, valid_of_seen h, (seen_eq_iff.mp h).2.2.2]

theorem PageEntry.evicted_of_seen : e.evicted = e'.evicted := by
  rw [evicted, evicted, readOnly_of_seen h]

end Entries

@[simp] theorem Directory.size_seen (d : Directory O) : (d.seen marks).size = d.size := by
  simp [Directory.seen, Directory.size]

@[simp] theorem Directory.get?_seen (d : Directory O) (f : FrameNumber) :
    (d.seen marks).get? f = (d.get? f).map (·.seen marks) := by
  simp [Directory.seen, Directory.get?]

@[simp] theorem Directory.seen_set (d : Directory O) (f : FrameNumber) (i : FrameInfo O) :
    (d.set f i).seen marks = (d.seen marks).set f (i.seen marks) := by
  simp [Directory.seen, Directory.set, Array.map_setIfInBounds]

@[simp] theorem Directory.seen_true (d : Directory O) : d.seen true = d := by
  simp [Directory.seen]

@[simp] theorem PageTable.size_seen (t : PageTable) : (t.seen marks).size = t.size := by
  simp [PageTable.seen, PageTable.size]

@[simp] theorem PageTable.get?_seen (t : PageTable) (page : PageNumber) :
    (t.seen marks).get? page = (t.get? page).map (·.seen marks) := by
  simp [PageTable.seen, PageTable.get?]

@[simp] theorem PageTable.seen_setEntry (t : PageTable) (page : PageNumber) (e : PageEntry) :
    (t.setEntry page e).seen marks = (t.seen marks).setEntry page (e.seen marks) := by
  simp [PageTable.seen, PageTable.setEntry, Array.map_setIfInBounds]

/-- Tables that look alike have entries for the same pages, and these look alike. -/
theorem PageTable.entries_of_seen {t t' : PageTable} (h : t.seen marks = t'.seen marks)
    (page : PageNumber) : (t.get? page = none ∧ t'.get? page = none) ∨
      ∃ e e', t.get? page = some e ∧ t'.get? page = some e' ∧ e.seen marks = e'.seen marks := by
  have hget := congrArg (·.get? page) h
  simp only [get?_seen] at hget
  cases he : t.get? page with
  | none =>
    rw [he, Option.map_none, eq_comm, Option.map_eq_none_iff] at hget
    exact .inl ⟨rfl, hget⟩
  | some e =>
    rw [he, Option.map_some, eq_comm, Option.map_eq_some_iff] at hget
    obtain ⟨e', he', hseen⟩ := hget
    exact .inr ⟨e, e', rfl, he', hseen.symm⟩

/-- A new record that looks as the one before is no change. -/
theorem Directory.seen_set_of_get? {d : Directory O} {f : FrameNumber} {i j : FrameInfo O}
    (hi : d.get? f = some i) (h : j.seen marks = i.seen marks) :
    (d.set f j).seen marks = d.seen marks := by
  have hget : (d.seen marks).entries[f.toNat]? = some (j.seen marks) := by
    rw [h]
    exact (get?_seen d f).trans (congrArg _ hi)
  rw [seen_set, set]
  congr 1
  refine Array.ext_getElem? fun n => ?_
  rw [Array.getElem?_setIfInBounds]
  by_cases hn : f.toNat = n
  · subst hn
    obtain ⟨hlt, -⟩ := Array.getElem?_eq_some_iff.mp hget
    rw [if_pos rfl, if_pos hlt]
    exact hget.symm
  · rw [if_neg hn]
    rfl

end Parts

/-! ## The pool as far as it is looked at -/

namespace FrameTable

variable {O : Type} {marks : Bool} (t : FrameTable O) (f : FrameNumber)

theorem allocate_seen (owner : O) (page : PageNumber) :
    (t.seen marks).allocate owner page =
      (t.allocate owner page).map (Prod.map id (·.seen marks)) := by
  simp only [allocate, seen]
  cases t.free.pop? with
  | none => rfl
  | some r =>
    simp only [Directory.assign, Directory.get?_seen]
    cases t.directory.get? r.1 with
    | none => rfl
    | some i =>
      by_cases hfree : i.isFree <;>
        simp [hfree, Except.map, bind, Except.bind, pure, Except.pure]

theorem release_seen : (t.seen marks).release f = (t.release f).map (·.seen marks) := by
  simp only [release, seen, Directory.get?_seen]
  cases hi : t.directory.get? f with
  | none => rfl
  | some i =>
    simp only [Option.map_some, FrameInfo.isFree_seen, FrameInfo.isPinned_seen, Directory.clear,
      Directory.update, Directory.get?_seen, hi]
    by_cases hfree : i.isFree
    · simp [hfree, Except.map]
    · by_cases hpinned : i.isPinned
      · simp [hfree, hpinned, Except.map]
      · cases hpush : t.free.push f <;>
          simp [hfree, hpinned, Except.map, bind, Except.bind, pure, Except.pure]

theorem pin_seen : (t.seen marks).pin f = (t.pin f).map (·.seen marks) := by
  simp only [pin, seen, Directory.get?_seen]
  cases hi : t.directory.get? f with
  | none => rfl
  | some i =>
    by_cases hfree : i.isFree
    · simp [hfree, Except.map]
    · by_cases hfull : FrameInfo.maxPins ≤ i.pins <;>
        simp [hfree, hfull, Except.map]

theorem unpin_seen :
    ((t.seen marks).unpin f).map Prod.snd = ((t.unpin f).map Prod.snd).map (·.seen marks) := by
  simp only [unpin, seen, Directory.get?_seen]
  cases hi : t.directory.get? f with
  | none => rfl
  | some i =>
    by_cases hpinned : i.isPinned
    · by_cases hlast : 1 < i.pins <;>
        simp [hpinned, hlast, Except.map, wakeOne, WaitRoom.wakeOne, WaitRoom.empty,
          WaitQueue.wakeOne, WaitQueue.empty]
    · simp [hpinned, Except.map]

theorem setReferenced_seen (b : Bool) :
    (t.seen marks).setReferenced f (marks && b) = (t.setReferenced f b).map (·.seen marks) := by
  simp only [setReferenced, Directory.update, seen, Directory.get?_seen]
  cases hi : t.directory.get? f with
  | none => rfl
  | some i => simp [Except.map, bind, Except.bind, pure, Except.pure]

end FrameTable

/-! ## The clock -/

namespace Clock

variable {O : Type}

/-- A sweep changes marks only. -/
theorem seen_sweep (fs : List FrameNumber) (c : Option FrameNumber) (d : Directory O) :
    (sweep fs c d).2.seen false = d.seen false := by
  induction fs generalizing c d with
  | nil => rfl
  | cons f fs ih =>
    unfold sweep
    cases hi : d.get? f with
    | none => exact ih ..
    | some i =>
      dsimp only
      split
      · exact ih ..
      · split
        · exact (ih ..).trans (Directory.seen_set_of_get? hi rfl)
        · rfl

end Clock

/-- Without marks, the clocks go on alike if they choose the same victim. -/
theorem FrameTable.seen_selectVictim {O : Type} {marks : Bool} {t t' : FrameTable O}
    (h : t.seen marks = t'.seen marks)
    (hsame : marks = false → t.selectVictim.1 = t'.selectVictim.1) :
    t.selectVictim.1 = t'.selectVictim.1 ∧
      t.selectVictim.2.seen marks = t'.selectVictim.2.seen marks := by
  obtain ⟨free, d, clock, waiters⟩ := t
  obtain ⟨free', d', clock', waiters'⟩ := t'
  simp only [seen, FrameTable.mk.injEq] at h
  obtain ⟨rfl, hd, rfl, -⟩ := h
  cases marks with
  | true =>
    rw [Directory.seen_true, Directory.seen_true] at hd
    subst hd
    exact ⟨rfl, rfl⟩
  | false =>
    refine ⟨hsame rfl, ?_⟩
    have hsize : d.size = d'.size := by
      have := congrArg Directory.size hd
      rwa [Directory.size_seen, Directory.size_seen] at this
    have hvictim := hsame rfl
    have hsweep := Clock.seen_sweep (Clock.turn clock.hand d.size) none d
    have hsweep' := Clock.seen_sweep (Clock.turn clock.hand d'.size) none d'
    simp only [selectVictim, Clock.selectVictim, hsize] at hvictim hsweep ⊢
    revert hvictim hsweep hsweep'
    rcases Clock.sweep (Clock.turn clock.hand d'.size) none d with ⟨_ | f, e⟩ <;>
      rcases Clock.sweep (Clock.turn clock.hand d'.size) none d' with ⟨_ | f', e'⟩ <;>
        intro hvictim hsweep hsweep' <;> simp_all [seen]

namespace Machine.Like

variable {marks : Bool} {m m' : Machine} (h : m.Like marks m')
include h

/-! ## What machines that look alike have in common -/

theorem symm : m'.Like marks m := Eq.symm h

theorem frames : m.kernel.frames.seen marks = m'.kernel.frames.seen marks :=
  congrArg (·.kernel.frames) h

theorem free : m.kernel.frames.free = m'.kernel.frames.free := congrArg (·.kernel.frames.free) h

theorem clock : m.kernel.frames.clock = m'.kernel.frames.clock := congrArg (·.kernel.frames.clock) h

theorem info (f : FrameNumber) :
    (m.frameInfo? f).map (·.seen marks) = (m'.frameInfo? f).map (·.seen marks) := by
  have hget := congrArg (fun t => t.directory.get? f) h.frames
  simp only [FrameTable.seen, Directory.get?_seen] at hget
  exact hget

theorem registry : m.kernel.registry = m'.kernel.registry := congrArg (·.kernel.registry) h

theorem memory : m.kernel.memory = m'.kernel.memory := congrArg (·.kernel.memory) h

theorem swap : m.kernel.swap = m'.kernel.swap := congrArg (·.kernel.swap) h

theorem table (p : UserProcess) : (m.table p).seen marks = (m'.table p).seen marks := by
  have hget := congrArg (fun x => x.tables[p.table.index]?.getD .empty) h
  have hempty : PageTable.empty.seen marks = .empty := by simp [PageTable.seen, PageTable.empty]
  simp only [Machine.seen, Array.getElem?_map] at hget
  rwa [← hempty, Option.getD_map, Option.getD_map] at hget

theorem entries (p : UserProcess) (page : PageNumber) :
    (m.entryOf? p page = none ∧ m'.entryOf? p page = none) ∨
      ∃ e e', m.entryOf? p page = some e ∧ m'.entryOf? p page = some e' ∧
        e.seen marks = e'.seen marks :=
  PageTable.entries_of_seen (h.table p) page

/-! ## Changes that keep machines alike -/

theorem noted (e e' : Event) : (m.noted e).Like marks (m'.noted e') := h

theorem withFrames {t t' : FrameTable ProcessId} (ht : t.seen marks = t'.seen marks) :
    (m.withFrames t).Like marks (m'.withFrames t') := by
  have hm : m.seen marks = m'.seen marks := h
  have heq : ∀ (m : Machine) (t : FrameTable ProcessId),
      (m.withFrames t).seen marks = (m.seen marks).withFrames (t.seen marks) := fun _ _ => rfl
  rw [Machine.Like, heq, heq, hm, ht]

theorem withMemory (b : PhysicalMemory) : (m.withMemory b).Like marks (m'.withMemory b) :=
  congrArg (Machine.withMemory · b) h

theorem withSwap (s : Swap) : (m.withSwap s).Like marks (m'.withSwap s) :=
  congrArg (Machine.withSwap · s) h

theorem withTable (p : UserProcess) {t t' : PageTable} (ht : t.seen marks = t'.seen marks) :
    (m.withTable p t).Like marks (m'.withTable p t') := by
  have hm : m.seen marks = m'.seen marks := h
  have heq : ∀ (m : Machine) (t : PageTable),
      (m.withTable p t).seen marks = (m.seen marks).withTable p (t.seen marks) := fun m t => by
    simp [Machine.withTable, Machine.seen, Array.map_setIfInBounds]
  rw [Machine.Like, heq, heq, hm, ht]

theorem counted {c : Stats → Stats} (hc : ∀ s : Stats, (c s).seen = (c s.seen).seen) :
    (m.counted c).Like marks (m'.counted c) := by
  have hm : m.seen marks = m'.seen marks := h
  have heq : ∀ m : Machine, (m.counted c).seen marks =
      (m.seen marks).counted fun s => (c s).seen := fun m => by
    simp only [Machine.seen, Machine.counted, hc m.kernel.stats]
  rw [Machine.Like, heq, heq, hm]

end Machine.Like

/-! ## Actions that do the same -/

/-- Two actions have ended in the same way, with values that `V` relates, and have left machines behind
that look alike. -/
inductive Corresponds (marks : Bool) {α β : Type} (V : α → β → Prop) :
    EStateM.Result (Stop VmError) Machine α → EStateM.Result (Stop VmError) Machine β → Prop
  | ok {a : α} {b : β} {m m' : Machine} (value : V a b) (like : m.Like marks m') :
    Corresponds marks V (.ok a m) (.ok b m')
  | error {stop : Stop VmError} {m m' : Machine} (like : m.Like marks m') :
    Corresponds marks V (.error stop m) (.error stop m')

namespace Action

variable {marks : Bool} {m m' : Machine} {α β γ δ : Type} {V : α → β → Prop} {W : γ → δ → Prop}

theorem corresponds_bind_run {x : Action α} {y : Action β} {f : α → Action γ} {g : β → Action δ}
    (hx : Corresponds marks V (x.run m) (y.run m'))
    (hf : ∀ a b m₁ m₁', x.run m = .ok a m₁ → y.run m' = .ok b m₁' → V a b → m₁.Like marks m₁' →
      Corresponds marks W ((f a).run m₁) ((g b).run m₁')) :
    Corresponds marks W ((x >>= f).run m) ((y >>= g).run m') := by
  rw [EStateM.run_bind, EStateM.run_bind]
  cases hr : x.run m <;> cases hr' : y.run m' <;> rw [hr, hr'] at hx <;> cases hx
  · next value like => exact hf _ _ _ _ hr hr' value like
  · next like => exact .error like

theorem corresponds_bind {x : Action α} {y : Action β} {f : α → Action γ} {g : β → Action δ}
    (hx : Corresponds marks V (x.run m) (y.run m'))
    (hf : ∀ a b m₁ m₁', V a b → m₁.Like marks m₁' →
      Corresponds marks W ((f a).run m₁) ((g b).run m₁')) :
    Corresponds marks W ((x >>= f).run m) ((y >>= g).run m') :=
  corresponds_bind_run hx fun a b m₁ m₁' _ _ => hf a b m₁ m₁'

theorem corresponds_get_bind {f : Machine → Action γ} {g : Machine → Action δ}
    (h : Corresponds marks W ((f m).run m) ((g m').run m')) :
    Corresponds marks W ((get >>= f).run m) ((get >>= g).run m') := h

theorem corresponds_fail (h : m.Like marks m') (e : VmError) :
    Corresponds marks V ((fail e : Action α).run m) ((fail e : Action β).run m') := .error h

theorem corresponds_violate (h : m.Like marks m') (v : Violation) :
    Corresponds marks V ((violate v : Action α).run m) ((violate v : Action β).run m') := .error h

theorem corresponds_ofExcept (h : m.Like marks m') (x : Except Violation α) :
    Corresponds marks Eq ((ofExcept x).run m) ((ofExcept x).run m') := by
  cases x with
  | error v => exact .error h
  | ok a => exact .ok rfl h

theorem corresponds_note (h : m.Like marks m') (e e' : Event) :
    Corresponds marks Eq ((note e).run m) ((note e').run m') := .ok rfl (h.noted e e')

theorem corresponds_count (h : m.Like marks m') {c : Stats → Stats}
    (hc : ∀ s : Stats, (c s).seen = (c s.seen).seen) :
    Corresponds marks Eq ((count c).run m) ((count c).run m') := .ok rfl (h.counted hc)

theorem corresponds_setSwap (h : m.Like marks m') (s : Swap) :
    Corresponds marks Eq ((setSwap s).run m) ((setSwap s).run m') := .ok rfl (h.withSwap s)

theorem corresponds_onMemory (h : m.Like marks m')
    (f : PhysicalMemory → Except Violation PhysicalMemory) :
    Corresponds marks Eq ((onMemory f).run m) ((onMemory f).run m') := by
  cases hf : f m.kernel.memory with
  | error v =>
    have hf' : f m'.kernel.memory = .error v := by rw [← h.memory, hf]
    simp only [onMemory, EStateM.run_bind, EStateM.run_get, ofExcept, hf, hf', run_violate]
    exact .error h
  | ok b =>
    have hf' : f m'.kernel.memory = .ok b := by rw [← h.memory, hf]
    rw [run_onMemory hf, run_onMemory hf']
    exact .ok rfl (h.withMemory b)

theorem corresponds_frameBytes (h : m.Like marks m') (f : FrameNumber) :
    Corresponds marks Eq ((frameBytes f).run m) ((frameBytes f).run m') := by
  refine corresponds_get_bind ?_
  rw [h.memory]
  exact corresponds_ofExcept h _

theorem corresponds_onTable (h : m.Like marks m') (p : UserProcess) {f g : PageTable → PageTable}
    (hfg : ∀ t t', t.seen marks = t'.seen marks → (f t).seen marks = (g t').seen marks) :
    Corresponds marks Eq ((onTable p f).run m) ((onTable p g).run m') := by
  rw [run_onTable, run_onTable]
  exact .ok rfl (h.withTable p (hfg _ _ (h.table p)))

/-- A change of the pool that does the same on pools that look alike. -/
theorem corresponds_onFrames (h : m.Like marks m')
    {f g : FrameTable ProcessId → Except Violation (α × FrameTable ProcessId)}
    (hfg : (f m.kernel.frames).map (Prod.map id (·.seen marks)) =
      (g m'.kernel.frames).map (Prod.map id (·.seen marks))) :
    Corresponds marks Eq ((onFrames f).run m) ((onFrames g).run m') := by
  cases hf : f m.kernel.frames with
  | error v =>
    cases hg : g m'.kernel.frames with
    | error v' =>
      rw [hf, hg] at hfg
      cases hfg
      rw [run_onFrames_error hf, run_onFrames_error hg]
      exact .error h
    | ok r =>
      rw [hf, hg] at hfg
      cases hfg
  | ok r =>
    cases hg : g m'.kernel.frames with
    | error v =>
      rw [hf, hg] at hfg
      cases hfg
    | ok r' =>
      rw [hf, hg] at hfg
      obtain ⟨a, t⟩ := r
      obtain ⟨b, t'⟩ := r'
      simp only [Except.map, Prod.map, id, Except.ok.injEq, Prod.mk.injEq] at hfg
      rw [run_onFrames hf, run_onFrames hg]
      exact .ok hfg.1 (h.withFrames hfg.2)

/-- A change of the pool without a value. -/
theorem corresponds_onFrames_map (h : m.Like marks m')
    {f g : FrameTable ProcessId → Except Violation (FrameTable ProcessId)}
    (hfg : (f m.kernel.frames).map (·.seen marks) = (g m'.kernel.frames).map (·.seen marks)) :
    Corresponds marks Eq ((onFrames fun t => (f t).map ((), ·)).run m)
      ((onFrames fun t => (g t).map ((), ·)).run m') := by
  refine corresponds_onFrames h ?_
  revert hfg
  cases f m.kernel.frames <;> cases g m'.kernel.frames <;> simp [Except.map]

/-! ## The pool -/

theorem corresponds_allocate (h : m.Like marks m') (owner : ProcessId) (page : PageNumber) :
    Corresponds marks Eq ((allocate owner page).run m) ((allocate owner page).run m') := by
  refine corresponds_bind (corresponds_onFrames h ?_) fun a b m₁ m₁' hab h₁ => ?_
  · rw [← FrameTable.allocate_seen, ← FrameTable.allocate_seen, h.frames]
  · subst hab
    cases a with
    | none => exact .ok rfl h₁
    | some f => exact .ok rfl (h₁.noted _ _)

theorem corresponds_release (h : m.Like marks m') (f : FrameNumber) :
    Corresponds marks Eq ((release f).run m) ((release f).run m') := by
  refine corresponds_bind (corresponds_onFrames_map h ?_) fun _ _ _ _ _ h₁ => corresponds_note h₁ _ _
  rw [← FrameTable.release_seen, ← FrameTable.release_seen, h.frames]

theorem corresponds_pin (h : m.Like marks m') (f : FrameNumber) :
    Corresponds marks Eq ((pin f).run m) ((pin f).run m') := by
  refine corresponds_onFrames_map h ?_
  rw [← FrameTable.pin_seen, ← FrameTable.pin_seen, h.frames]

theorem corresponds_unpin (h : m.Like marks m') (f : FrameNumber) :
    Corresponds marks Eq ((unpin f).run m) ((unpin f).run m') := by
  have hunpin : unpin f = onFrames fun t => ((t.unpin f).map Prod.snd).map ((), ·) := by
    refine congrArg onFrames (funext fun t => ?_)
    cases t.unpin f <;> rfl
  rw [hunpin]
  refine corresponds_onFrames_map h ?_
  rw [← FrameTable.unpin_seen, ← FrameTable.unpin_seen, h.frames]

/-- Marks may differ if they are not looked at. -/
theorem corresponds_setReferenced (h : m.Like marks m') (f : FrameNumber) {b b' : Bool}
    (hb : (marks && b) = (marks && b')) :
    Corresponds marks Eq ((setReferenced f b).run m) ((setReferenced f b').run m') := by
  refine corresponds_onFrames_map h ?_
  rw [← FrameTable.setReferenced_seen, ← FrameTable.setReferenced_seen, h.frames, hb]

/-- The records of a frame differ at most in their marks. -/
theorem corresponds_frameInfo (h : m.Like marks m') (f : FrameNumber) :
    Corresponds marks (fun i j => i.seen marks = j.seen marks) ((frameInfo f).run m)
      ((frameInfo f).run m') := by
  refine corresponds_get_bind ?_
  have hinfo := h.info f
  cases hi : m.frameInfo? f <;> cases hj : m'.frameInfo? f <;> rw [hi, hj] at hinfo
  · exact .error h
  · cases hinfo
  · cases hinfo
  · exact .ok (Option.some.inj hinfo) h

/-- If no frame is free, the clocks choose the same victim on these machines. -/
def SameVictim (marks : Bool) (m m' : Machine) : Prop :=
  marks = false → m.kernel.frames.free.stack = [] →
    m.kernel.frames.selectVictim.1 = m'.kernel.frames.selectVictim.1

theorem corresponds_selectVictim (h : m.Like marks m') (hvictim : SameVictim marks m m')
    (hstack : m.kernel.frames.free.stack = []) :
    Corresponds marks Eq (selectVictim.run m) (selectVictim.run m') := by
  obtain ⟨hsame, hseen⟩ := FrameTable.seen_selectVictim h.frames fun hmarks => hvictim hmarks hstack
  refine corresponds_bind (corresponds_onFrames h ?_) fun a b m₁ m₁' hab h₁ => ?_
  · exact congrArg Except.ok (Prod.ext hsame hseen)
  · subst hab
    cases a with
    | none => exact .ok rfl h₁
    | some f =>
      refine corresponds_bind (corresponds_frameInfo h₁ f) fun i j m₂ m₂' hij h₂ => ?_
      refine corresponds_get_bind ?_
      exact corresponds_bind (corresponds_note h₂ _ _) fun _ _ _ _ _ h₃ => .ok rfl h₃

/-! ## Evictions -/

theorem run_changeTable_stop {p : UserProcess} {e : Stop PageTableError}
    {f : PageTable → Except (Stop PageTableError) PageTable} (hf : f (m.table p) = .error e) :
    (changeTable p f).run m = .error (e.mapError .pageTable) m := by
  simp only [changeTable, EStateM.run_bind, EStateM.run_get, hf, EStateM.run_throw]

theorem corresponds_changeTable (h : m.Like marks m') (p : UserProcess)
    {f g : PageTable → Except (Stop PageTableError) PageTable}
    (hfg : (f (m.table p)).map (·.seen marks) = (g (m'.table p)).map (·.seen marks)) :
    Corresponds marks Eq ((changeTable p f).run m) ((changeTable p g).run m') := by
  revert hfg
  cases hf : f (m.table p) <;> cases hg : g (m'.table p) <;>
    simp only [Except.map, Except.ok.injEq, Except.error.injEq, reduceCtorEq, false_implies]
  · rintro rfl
    rw [run_changeTable_stop hf, run_changeTable_stop hg]
    exact .error h
  · intro hseen
    rw [run_changeTable hf, run_changeTable hg]
    exact .ok rfl (h.withTable p hseen)

theorem corresponds_saveToSwap (h : m.Like marks m') (q : UserProcess) (page : PageNumber)
    {e e' : PageEntry} (he : e.seen marks = e'.seen marks) (f : FrameNumber) :
    Corresponds marks Eq ((saveToSwap q page e f).run m) ((saveToSwap q page e' f).run m') := by
  refine corresponds_bind (corresponds_frameBytes h f) fun content _ m₁ m₁' hcontent h₁ => ?_
  subst hcontent
  refine corresponds_get_bind ?_
  rw [h₁.swap]
  split
  · exact corresponds_bind (corresponds_setSwap h₁ _) fun _ _ _ _ _ h₂ =>
      corresponds_count h₂ fun _ => rfl
  · refine corresponds_bind (corresponds_note h₁ _ _) fun _ _ m₂ m₂' _ h₂ => ?_
    refine corresponds_bind (corresponds_changeTable h₂ q ?_) fun _ _ _ _ _ h₃ =>
      corresponds_fail h₃ _
    have htable := h₂.table q
    have hsize := congrArg PageTable.size htable
    rw [PageTable.size_seen, PageTable.size_seen] at hsize
    by_cases hcontains : (m₂.table q).contains page
    · have hcontains' : (m₂'.table q).contains page = true := by
        rwa [PageTable.contains, ← hsize]
      simp only [PageTable.restore, hcontains, hcontains', if_true, Except.mapError, Except.map,
        PageTable.seen_setEntry, htable, he]
    · have hcontains' : ¬ (m₂'.table q).contains page = true := by
        rwa [PageTable.contains, ← hsize]
      simp only [PageTable.restore, hcontains, hcontains', Bool.false_eq_true, if_false,
        Except.mapError, Except.map, hsize]

theorem seen_invalidate {t t' : PageTable} (h : t.seen marks = t'.seen marks) (page : PageNumber) :
    (t.invalidate page).2.seen marks = (t'.invalidate page).2.seen marks := by
  unfold PageTable.invalidate
  obtain ⟨he, he'⟩ | ⟨e, e', he, he', hseen⟩ := PageTable.entries_of_seen h page
  · rw [he, he']
    exact h
  · have hvalid : e.valid = e'.valid := PageEntry.valid_of_seen hseen
    have hevicted : e.evicted = e'.evicted := PageEntry.evicted_of_seen hseen
    simp only [he, he', hvalid, hevicted]
    split
    · rw [PageTable.seen_setEntry, PageTable.seen_setEntry, h]
    · exact h

theorem corresponds_unmapVictim (h : m.Like marks m') (q : UserProcess) (page : PageNumber)
    (f : FrameNumber) :
    Corresponds marks Eq ((unmapVictim q page f).run m) ((unmapVictim q page f).run m') := by
  refine corresponds_get_bind ?_
  refine corresponds_bind (corresponds_onTable h q fun t t' ht => seen_invalidate ht page)
    fun _ _ m₁ m₁' _ h₁ => ?_
  obtain ⟨he, he'⟩ | ⟨e, e', he, he', hseen⟩ := h.entries q page
  · rw [he, he']
    exact corresponds_violate h₁ _
  · have hframe : e.frame? = e'.frame? := PageEntry.frame?_of_seen hseen
    have hdirty : e.dirty = e'.dirty := PageEntry.dirty_of_seen hseen
    simp only [he, he', hframe, hdirty]
    split
    · split
      · exact corresponds_bind (corresponds_saveToSwap h₁ q page hseen f) fun _ _ _ _ _ h₂ =>
          corresponds_note h₂ _ _
      · exact corresponds_note h₁ _ _
    · exact corresponds_violate h₁ _

theorem corresponds_evict (h : m.Like marks m') (f : FrameNumber) :
    Corresponds marks Eq ((evict f).run m) ((evict f).run m') := by
  refine corresponds_bind (corresponds_frameInfo h f) fun i j m₁ m₁' hij h₁ => ?_
  have howner : i.owner = j.owner := (congrArg FrameInfo.owner hij :)
  have hpage : i.page = j.page := (congrArg FrameInfo.page hij :)
  have hpinned : i.isPinned = j.isPinned := (congrArg FrameInfo.isPinned hij :)
  rw [howner, hpage, hpinned]
  split
  · exact corresponds_violate h₁ _
  · split
    · exact corresponds_violate h₁ _
    · refine corresponds_get_bind ?_
      have hprocess : ∀ pid, m₁.process? pid = m₁'.process? pid := fun pid => by
        rw [process?, process?, h₁.registry]
      rw [hprocess]
      split
      · exact corresponds_violate h₁ _
      · refine corresponds_bind (corresponds_unmapVictim h₁ _ _ f) fun _ _ _ _ _ h₂ => ?_
        exact corresponds_bind (corresponds_release h₂ f) fun _ _ _ _ _ h₃ =>
          corresponds_count h₃ fun _ => rfl

/-! ## Attempts -/

theorem corresponds_acquireFrame (h : m.Like marks m') (hvictim : SameVictim marks m m')
    (p : UserProcess) (page : PageNumber) :
    Corresponds marks Eq ((acquireFrame p page).run m) ((acquireFrame p page).run m') := by
  refine corresponds_bind_run (corresponds_allocate h p.pid page)
    fun a b m₁ m₁' hrun hrun' hab h₁ => ?_
  subst hab
  cases a with
  | some f => exact .ok rfl h₁
  | none =>
    -- Nothing was allocated, so the machines are as before, and choose the same victim.
    obtain ⟨hstack, rfl⟩ := of_run_allocate_none hrun
    obtain ⟨-, rfl⟩ := of_run_allocate_none hrun'
    refine corresponds_bind (corresponds_selectVictim h hvictim hstack) fun a b m₁ m₁' hab h₁ => ?_
    subst hab
    cases a with
    | none => exact .ok rfl h₁
    | some f =>
      exact corresponds_bind (corresponds_evict h₁ f) fun _ _ _ _ _ h₂ =>
        corresponds_allocate h₂ p.pid page

theorem corresponds_populate (h : m.Like marks m') (p : UserProcess) (page : PageNumber)
    (f : FrameNumber) :
    Corresponds marks Eq ((populate p page f).run m) ((populate p page f).run m') := by
  refine corresponds_get_bind ?_
  rw [h.swap]
  split
  · exact corresponds_fail h _
  · refine corresponds_bind (corresponds_setSwap h _) fun _ _ _ _ _ h₁ => ?_
    refine corresponds_bind (corresponds_onMemory h₁ _) fun _ _ _ _ _ h₂ => ?_
    exact corresponds_bind (corresponds_count h₂ fun _ => rfl) fun _ _ _ _ _ h₃ =>
      corresponds_note h₃ _ _
  · split
    · exact .error h
    · exact corresponds_onMemory h _

theorem corresponds_orGiveBack {x y : Action Unit} (f : FrameNumber)
    (hxy : Corresponds marks Eq (x.run m) (y.run m')) :
    Corresponds marks Eq ((orGiveBack f x).run m) ((orGiveBack f y).run m') := by
  rw [run_orGiveBack, run_orGiveBack]
  revert hxy
  generalize x.run m = r
  generalize y.run m' = r'
  rintro (⟨-, like⟩ | @⟨stop, m₁, m₁', like⟩)
  · exact .ok rfl like
  · cases stop with
    | violation v => exact .error like
    | error e =>
      refine corresponds_bind (corresponds_unpin like f) fun _ _ _ _ _ h₁ => ?_
      exact corresponds_bind (corresponds_release h₁ f) fun _ _ _ _ _ h₂ => corresponds_fail h₂ e

theorem seen_install {t t' : PageTable} (h : t.seen marks = t'.seen marks) (page : PageNumber)
    (f : FrameNumber) {b b' : Bool} (hb : (marks && b) = (marks && b')) :
    (t.install page f b).map (·.seen marks) = (t'.install page f b').map (·.seen marks) := by
  have hsize := congrArg PageTable.size h
  rw [PageTable.size_seen, PageTable.size_seen] at hsize
  unfold PageTable.install
  cases hv : PageEntry.frameBits? f with
  | none => rfl
  | some v =>
    obtain ⟨he, he'⟩ | ⟨e, e', he, he', hseen⟩ := PageTable.entries_of_seen h page
    · simp only [he, he', hsize, Except.map]
    · have hvalid : e.valid = e'.valid := PageEntry.valid_of_seen hseen
      have hreadOnly : e.readOnly = e'.readOnly := PageEntry.readOnly_of_seen hseen
      simp only [he, he', hvalid, hreadOnly]
      split
      · rfl
      · have hresident : (PageEntry.resident v e'.readOnly b).seen marks =
            (PageEntry.resident v e'.readOnly b').seen marks := by
          refine PageEntry.seen_eq_iff.mpr ⟨fun g hg => ?_, ?_, ?_, ?_⟩ <;>
            simp_all [PageEntry.resident]
        simp only [Except.map, PageTable.seen_setEntry, h, hresident]

theorem corresponds_bringIn (h : m.Like marks m') (p : UserProcess) (page : PageNumber)
    (f : FrameNumber) :
    Corresponds marks Eq ((bringIn p page f).run m) ((bringIn p page f).run m') := by
  have hflag : (marks && m.kernel.config.referenceOnInstall) =
      (marks && m'.kernel.config.referenceOnInstall) :=
    congrArg (·.kernel.config.referenceOnInstall) h
  refine corresponds_get_bind ?_
  refine corresponds_bind (corresponds_note h _ _) fun _ _ _ _ _ h₁ => ?_
  refine corresponds_bind (corresponds_orGiveBack f (corresponds_populate h₁ p page f))
    fun _ _ _ _ _ h₂ => ?_
  refine corresponds_bind (corresponds_note h₂ _ _) fun _ _ _ _ _ h₃ => ?_
  refine corresponds_bind (corresponds_orGiveBack f (corresponds_changeTable h₃ p
    (seen_install (h₃.table p) page f hflag))) fun _ _ _ _ _ h₄ => ?_
  refine corresponds_bind (corresponds_setReferenced h₄ f hflag) fun _ _ _ _ _ h₅ => ?_
  exact corresponds_bind (corresponds_count h₅ fun _ => rfl) fun _ _ _ _ _ h₆ =>
    corresponds_note h₆ _ _

/-- Attempts that end in the same way: with the same frame, or both in the queue. -/
inductive SameGrant : Grant → Grant → Prop
  | pinned (f : FrameNumber) : SameGrant (.pinned f) (.pinned f)
  | queued (t t' : Ticket) : SameGrant (.queued t) (.queued t')

theorem corresponds_queueUp (h : m.Like marks m') (p : UserProcess) (page : PageNumber) :
    Corresponds marks (fun _ _ => True) ((queueUp p page).run m) ((queueUp p page).run m') := by
  rw [run_queueUp, run_queueUp]
  have hframes : m.kernel.frames.wait.2.seen marks = m'.kernel.frames.wait.2.seen marks := h.frames
  have hcounted := (h.withFrames hframes).counted (c := fun s => { s with blocks := s.blocks + 1 })
    fun _ => rfl
  exact .ok trivial (hcounted.noted _ _)

theorem corresponds_serveMiss (h : m.Like marks m') (hvictim : SameVictim marks m m')
    (p : UserProcess) (page : PageNumber) :
    Corresponds marks SameGrant ((serveMiss p page).run m) ((serveMiss p page).run m') := by
  have hnoted : ∀ (x : Action Grant) (m : Machine), (do
      note (.faultMiss p.pid page)
      note (.faultAcquire p.pid page)
      x : Action Grant).run m =
        x.run ((m.noted (.faultMiss p.pid page)).noted (.faultAcquire p.pid page)) := fun _ _ => rfl
  have hlike := (h.noted (.faultMiss p.pid page) (.faultMiss p.pid page)).noted
    (.faultAcquire p.pid page) (.faultAcquire p.pid page)
  rw [serveMiss, hnoted, hnoted]
  refine corresponds_bind (corresponds_acquireFrame hlike hvictim p page)
    fun a b m₁ m₁' hab h₁ => ?_
  subst hab
  cases a with
  | none =>
    exact corresponds_bind (corresponds_queueUp h₁ p page) fun t t' _ _ _ h₂ => .ok (.queued t t') h₂
  | some f =>
    exact corresponds_bind (corresponds_bringIn h₁ p page f) fun _ _ _ _ _ h₂ => .ok (.pinned f) h₂

/-- The entries differ at most in their marks. -/
theorem corresponds_permittedEntry (h : m.Like marks m') (p : UserProcess) (page : PageNumber)
    (kind : AccessKind) :
    Corresponds marks (fun e e' => e.seen marks = e'.seen marks)
      ((permittedEntry p page kind).run m) ((permittedEntry p page kind).run m') := by
  refine corresponds_get_bind ?_
  rw [h.registry]
  split
  · obtain ⟨he, he'⟩ | ⟨e, e', he, he', hseen⟩ := h.entries p page
    · rw [he, he']
      exact corresponds_fail h _
    · have hreadOnly : e.readOnly = e'.readOnly := PageEntry.readOnly_of_seen hseen
      simp only [he, he', hreadOnly]
      split
      · exact corresponds_fail h _
      · exact .ok hseen h
  · exact corresponds_fail h _

/-- **An attempt does the same** on machines that look alike. -/
theorem corresponds_resolve (h : m.Like marks m') (hvictim : SameVictim marks m m')
    (p : UserProcess) (page : PageNumber) (kind : AccessKind) :
    Corresponds marks SameGrant ((resolve p page kind).run m) ((resolve p page kind).run m') := by
  refine corresponds_bind_run (corresponds_permittedEntry h p page kind)
    fun e e' m₁ m₁' hrun hrun' hseen _ => ?_
  obtain ⟨-, -, -, rfl⟩ := of_run_permittedEntry hrun
  obtain ⟨-, -, -, rfl⟩ := of_run_permittedEntry hrun'
  have hframe : e.frame? = e'.frame? := PageEntry.frame?_of_seen hseen
  rw [hframe]
  split
  · next f _ =>
    refine corresponds_bind (corresponds_pin h f) fun _ _ _ _ _ h₁ => ?_
    exact corresponds_bind (corresponds_setReferenced h₁ f rfl) fun _ _ _ _ _ h₂ =>
      .ok (.pinned f) h₂
  · exact corresponds_serveMiss h hvictim p page

theorem seen_markAccess {t t' : PageTable} (h : t.seen marks = t'.seen marks) (page : PageNumber)
    (write : Bool) : (t.markAccess page write).seen marks = (t'.markAccess page write).seen marks := by
  unfold PageTable.markAccess
  obtain ⟨he, he'⟩ | ⟨e, e', he, he', hseen⟩ := PageTable.entries_of_seen h page
  · rw [he, he']
    exact h
  · have hvalid : e.valid = e'.valid := PageEntry.valid_of_seen hseen
    obtain ⟨hflags, -, hsystem, hframe⟩ := PageEntry.seen_eq_iff.mp hseen
    have hmarked : (if write then (e.put .referenced true).put .dirty true
        else e.put .referenced true).seen marks = (if write then (e'.put .referenced true).put .dirty true
        else e'.put .referenced true).seen marks := by
      refine PageEntry.seen_eq_iff.mpr ⟨fun g hg => ?_, ?_, ?_, ?_⟩ <;> cases write <;> simp_all
    simp only [he, he', hvalid]
    split
    · rw [PageTable.seen_setEntry, PageTable.seen_setEntry, h, hmarked]
    · exact h

theorem corresponds_transfer (h : m.Like marks m') (p : UserProcess) (c : Copy) (piece : CopyPiece)
    (f : FrameNumber) :
    Corresponds marks Eq ((transfer p c piece f).run m) ((transfer p c piece f).run m') := by
  have hmark : ∀ {m m' : Machine} (c' : Copy), m.Like marks m' → Corresponds marks Eq
      ((do onTable p (·.markAccess piece.page c.kind.isWrite); return c' : Action Copy).run m)
      ((do onTable p (·.markAccess piece.page c.kind.isWrite); return c' : Action Copy).run m') :=
    fun c' h => corresponds_bind (corresponds_onTable h p fun _ _ ht => seen_markAccess ht _ _)
      fun _ _ _ _ _ h₁ => .ok rfl h₁
  unfold transfer
  split
  · refine corresponds_get_bind ?_
    rw [h.memory]
    refine corresponds_bind (corresponds_ofExcept h _) fun bs _ _ _ hbs h₁ => ?_
    subst hbs
    exact hmark _ h₁
  · exact corresponds_bind (corresponds_onMemory h _) fun _ _ _ _ _ h₁ => hmark _ h₁

/-- **A page is used in the same way** on machines that look alike. -/
theorem corresponds_visit (h : m.Like marks m') (p : UserProcess) (r : Request) (f : FrameNumber) :
    Corresponds marks Eq ((r.visit p f).run m) ((r.visit p f).run m') := by
  have htransfer : Corresponds marks Eq ((r.transfer p f).run m) ((r.transfer p f).run m') := by
    unfold Request.transfer
    split
    · exact .ok rfl h
    · next c piece hcopy =>
      exact corresponds_bind (corresponds_transfer h p c piece f)
        fun c' _ _ _ hc h₁ => .ok (congrArg Answer.copied hc) h₁
  refine corresponds_bind htransfer fun a _ _ _ ha h₁ => ?_
  exact corresponds_bind (corresponds_unpin h₁ f) fun _ _ _ _ _ h₂ => .ok ha h₂

end Action

end DemandPaging
