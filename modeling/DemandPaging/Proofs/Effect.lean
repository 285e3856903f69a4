import DemandPaging.Proofs.Pool
import DemandPaging.Kernel.System

/-!
# Effects of the primitive actions

An action is known by what `run` makes of a machine. The primitive actions change one part of it
each, and there is one function for each part: `Machine.withFrames`, `withMemory`, `withSwap`,
`withTable`, `counted` and `noted`. The equations here say which of them a primitive action applies
and when it ends without a value, so what a longer action does is computed by rewriting.
-/

namespace DemandPaging

namespace Machine

/-! ## Machines with one part changed -/

/-- The machine with one more event. -/
def noted (m : Machine) (e : Event) : Machine := { m with log := m.log.push e }

/-- The machine with another pool of frames. -/
def withFrames (m : Machine) (t : FrameTable ProcessId) : Machine :=
  { m with kernel := { m.kernel with frames := t } }

/-- The machine with other bytes in the frames. -/
def withMemory (m : Machine) (memory : PhysicalMemory) : Machine :=
  { m with kernel := { m.kernel with memory } }

/-- The machine with another swap store. -/
def withSwap (m : Machine) (swap : Swap) : Machine :=
  { m with kernel := { m.kernel with swap } }

/-- The machine after something was counted. -/
def counted (m : Machine) (f : Stats → Stats) : Machine :=
  { m with kernel := { m.kernel with stats := f m.kernel.stats } }

/-- The machine with another page table for `p`. -/
def withTable (m : Machine) (p : UserProcess) (t : PageTable) : Machine :=
  { m with tables := m.tables.setIfInBounds p.table.index t }

section Projections

variable (m : Machine) (e : Event) (t : FrameTable ProcessId) (b : PhysicalMemory) (s : Swap)
  (c : Stats → Stats) (p q : UserProcess) (pt : PageTable)

@[simp] theorem kernel_noted : (m.noted e).kernel = m.kernel := rfl

@[simp] theorem tables_noted : (m.noted e).tables = m.tables := rfl

@[simp] theorem kernel_withFrames :
    (m.withFrames t).kernel = { m.kernel with frames := t } := rfl

@[simp] theorem tables_withFrames : (m.withFrames t).tables = m.tables := rfl

@[simp] theorem kernel_withMemory :
    (m.withMemory b).kernel = { m.kernel with memory := b } := rfl

@[simp] theorem tables_withMemory : (m.withMemory b).tables = m.tables := rfl

@[simp] theorem kernel_withSwap : (m.withSwap s).kernel = { m.kernel with swap := s } := rfl

@[simp] theorem tables_withSwap : (m.withSwap s).tables = m.tables := rfl

@[simp] theorem kernel_counted :
    (m.counted c).kernel = { m.kernel with stats := c m.kernel.stats } := rfl

@[simp] theorem tables_counted : (m.counted c).tables = m.tables := rfl

@[simp] theorem kernel_withTable : (m.withTable p pt).kernel = m.kernel := rfl

@[simp] theorem table_noted : (m.noted e).table q = m.table q := rfl

@[simp] theorem table_withFrames : (m.withFrames t).table q = m.table q := rfl

@[simp] theorem table_withMemory : (m.withMemory b).table q = m.table q := rfl

@[simp] theorem table_withSwap : (m.withSwap s).table q = m.table q := rfl

@[simp] theorem table_counted : (m.counted c).table q = m.table q := rfl

end Projections

/-- The numbers of pages of all page tables. -/
def sizes (m : Machine) : Array Nat := m.tables.map PageTable.size

/-- A new page table with as many pages as the one before. -/
theorem sizes_withTable {m : Machine} {p : UserProcess} {t : PageTable}
    (h : t.size = (m.table p).size) : (m.withTable p t).sizes = m.sizes := by
  apply Array.ext_getElem?
  intro i
  rw [sizes, sizes, withTable, Array.getElem?_map, Array.getElem?_map, Array.getElem?_setIfInBounds]
  by_cases hi : p.table.index = i
  · subst hi
    by_cases hlt : p.table.index < m.tables.size
    · rw [if_pos rfl, if_pos hlt, Option.map_some, h, table, Array.getElem?_eq_getElem hlt]
      rfl
    · rw [if_pos rfl, if_neg hlt, Array.getElem?_eq_none (Nat.not_lt.mp hlt)]
  · rw [if_neg hi]

/-- A new page table is the one that is found, and other processes keep theirs. -/
theorem table_withTable {m : Machine} {p : UserProcess} (h : p.table.index < m.tables.size)
    (t : PageTable) (q : UserProcess) :
    (m.withTable p t).table q = if q.table.index = p.table.index then t else m.table q := by
  unfold withTable table
  by_cases hq : q.table.index = p.table.index
  · rw [if_pos hq, hq, Array.getElem?_setIfInBounds_self_of_lt h, Option.getD_some]
  · rw [if_neg hq, Array.getElem?_setIfInBounds_ne (Ne.symm hq)]

/-- Of two new page tables for one process the second one stays. -/
@[simp] theorem withTable_withTable (m : Machine) (p : UserProcess) (t t' : PageTable) :
    (m.withTable p t).withTable p t' = m.withTable p t' := by
  simp [withTable]

/-- The page table that was there already is no change. -/
theorem withTable_table (m : Machine) (p : UserProcess) : m.withTable p (m.table p) = m := by
  have h : m.tables.setIfInBounds p.table.index (m.table p) = m.tables := by
    apply Array.ext_getElem?
    intro i
    rw [Array.getElem?_setIfInBounds]
    by_cases hi : p.table.index = i
    · by_cases hlt : p.table.index < m.tables.size
      · rw [if_pos hi, if_pos hlt, ← hi, Array.getElem?_eq_getElem hlt, table,
          Array.getElem?_eq_getElem hlt, Option.getD_some]
      · rw [if_pos hi, if_neg hlt, ← hi, Array.getElem?_eq_none (by omega)]
    · rw [if_neg hi]
  rw [withTable, h]

end Machine

namespace Action

variable {α : Type}

/-! ## Runs of the primitive actions -/

@[simp] theorem run_fail (e : VmError) (m : Machine) :
    (fail e : Action α).run m = .error (.error e) m := rfl

@[simp] theorem run_violate (v : Violation) (m : Machine) :
    (violate v : Action α).run m = .error (.violation v) m := rfl

@[simp] theorem run_note (e : Event) (m : Machine) : (note e).run m = .ok () (m.noted e) := rfl

@[simp] theorem run_count (f : Stats → Stats) (m : Machine) :
    (count f).run m = .ok () (m.counted f) := rfl

@[simp] theorem run_setSwap (s : Swap) (m : Machine) :
    (setSwap s).run m = .ok () (m.withSwap s) := rfl

@[simp] theorem run_wakeOne (m : Machine) :
    wakeOne.run m = .ok () (m.withFrames m.kernel.frames.wakeOne.2) := rfl

@[simp] theorem run_onTable (p : UserProcess) (f : PageTable → PageTable) (m : Machine) :
    (onTable p f).run m = .ok () (m.withTable p (f (m.table p))) := by
  have h : m.tables.modify p.table.index f =
      m.tables.setIfInBounds p.table.index (f (m.table p)) := by
    apply Array.ext_getElem?
    intro i
    rw [Array.getElem?_modify, Array.getElem?_setIfInBounds]
    by_cases hi : p.table.index = i
    · by_cases hlt : p.table.index < m.tables.size
      · rw [if_pos hi, if_pos hi, if_pos hlt, ← hi, Machine.table, Array.getElem?_eq_getElem hlt,
          Option.getD_some, Option.map_some]
      · rw [if_pos hi, if_pos hi, if_neg hlt, ← hi, Array.getElem?_eq_none (by omega),
          Option.map_none]
    · rw [if_neg hi, if_neg hi]
  unfold onTable Machine.withTable
  rw [← h]
  rfl

theorem run_changeTable {p : UserProcess} {m : Machine} {t : PageTable}
    {f : PageTable → Except (Stop PageTableError) PageTable} (h : f (m.table p) = .ok t) :
    (changeTable p f).run m = .ok () (m.withTable p t) := by
  simp only [changeTable, EStateM.run_bind, EStateM.run_get, h, EStateM.run_set]
  rfl

theorem run_changeTable_error {p : UserProcess} {m : Machine} {e : PageTableError}
    {f : PageTable → Except (Stop PageTableError) PageTable}
    (h : f (m.table p) = .error (.error e)) :
    (changeTable p f).run m = .error (.error (.pageTable e)) m := by
  simp only [changeTable, EStateM.run_bind, EStateM.run_get, h]
  rfl

theorem run_onMemory {m : Machine} {b : PhysicalMemory}
    {f : PhysicalMemory → Except Violation PhysicalMemory} (h : f m.kernel.memory = .ok b) :
    (onMemory f).run m = .ok () (m.withMemory b) := by
  simp only [onMemory, ofExcept, EStateM.run_bind, EStateM.run_get, h, EStateM.run_pure,
    EStateM.run_set]
  rfl

theorem run_frameInfo {m : Machine} {f : FrameNumber} {i : FrameInfo ProcessId}
    (h : m.frameInfo? f = some i) : (frameInfo f).run m = .ok i m := by
  simp only [frameInfo, EStateM.run_bind, EStateM.run_get, h, EStateM.run_pure]

theorem run_frameBytes {m : Machine} {f : FrameNumber} {content : Page}
    (h : m.kernel.memory.frames[f.toNat]? = some content) :
    (frameBytes f).run m = .ok content m := by
  simp only [frameBytes, ofExcept, PhysicalMemory.frame, EStateM.run_bind, EStateM.run_get, h,
    EStateM.run_pure]

/-! ## Runs of the actions on the pool -/

theorem run_onFrames {m : Machine} {a : α} {t : FrameTable ProcessId}
    {f : FrameTable ProcessId → Except Violation (α × FrameTable ProcessId)}
    (h : f m.kernel.frames = .ok (a, t)) : (onFrames f).run m = .ok a (m.withFrames t) := by
  simp only [onFrames, ofExcept, EStateM.run_bind, EStateM.run_get, h, EStateM.run_pure,
    EStateM.run_set]
  rfl

theorem run_onFrames_error {m : Machine} {v : Violation}
    {f : FrameTable ProcessId → Except Violation (α × FrameTable ProcessId)}
    (h : f m.kernel.frames = .error v) : (onFrames f).run m = .error (.violation v) m := by
  simp only [onFrames, ofExcept, EStateM.run_bind, EStateM.run_get, h, run_violate]

variable {m : Machine} {f : FrameNumber} {i : FrameInfo ProcessId}

theorem run_allocate_of_nil (h : m.kernel.frames.free.stack = []) (owner : ProcessId)
    (page : PageNumber) : (allocate owner page).run m = .ok none m := by
  have hrun := run_onFrames (m := m) (f := (·.allocate owner page))
    (FrameTable.allocate_of_nil h owner page)
  simp only [allocate, EStateM.run_bind, hrun, EStateM.run_pure]
  rfl

theorem run_allocate_of_cons (hv : m.kernel.frames.Valid) {fs : List FrameNumber}
    (h : m.kernel.frames.free.stack = f :: fs) (owner : ProcessId) (page : PageNumber) :
    (allocate owner page).run m = .ok (some f)
      ((m.withFrames (m.kernel.frames.handOut f owner page)).noted (.allocated f owner page)) := by
  have hrun := run_onFrames (m := m) (f := (·.allocate owner page))
    (FrameTable.allocate_of_cons hv h owner page)
  simp only [allocate, EStateM.run_bind, hrun, EStateM.run_pure, run_note]

theorem run_release_of_unpinned (hv : m.kernel.frames.Valid) (h : m.frameInfo? f = some i)
    (howner : i.owner ≠ none) (hpins : i.pins = 0) :
    (release f).run m = .ok ()
      ((m.withFrames (m.kernel.frames.takeBack f)).noted (.released f)) := by
  have hrun := run_onFrames (m := m) (f := fun t => (t.release f).map ((), ·)) (a := ())
    (t := m.kernel.frames.takeBack f)
    (by rw [FrameTable.release_of_unpinned hv h howner hpins]; rfl)
  simp only [release, EStateM.run_bind, hrun, run_note]

theorem run_release_of_pinned (h : m.frameInfo? f = some i) (howner : i.owner ≠ none)
    (hpins : i.pins ≠ 0) :
    (release f).run m = .error (.violation (.releasedWhilePinned f)) m := by
  have hrun := run_onFrames_error (m := m) (f := fun t => (t.release f).map ((), ·))
    (v := .releasedWhilePinned f) (by rw [FrameTable.release_of_pinned h howner hpins]; rfl)
  simp only [release, EStateM.run_bind, hrun]

theorem run_pin (h : m.frameInfo? f = some i) (howner : i.owner ≠ none)
    (hpins : i.pins < FrameInfo.maxPins) :
    (pin f).run m = .ok () (m.withFrames
      (m.kernel.frames.withInfo f { i with pins := i.pins + 1 })) := by
  refine run_onFrames (m := m) (f := fun t => (t.pin f).map ((), ·)) ?_
  rw [FrameTable.pin_of_owned h howner, if_neg (by omega)]
  rfl

theorem run_pin_overflow (h : m.frameInfo? f = some i) (howner : i.owner ≠ none)
    (hpins : FrameInfo.maxPins ≤ i.pins) : (pin f).run m = .error (.violation .overflow) m := by
  refine run_onFrames_error (m := m) (f := fun t => (t.pin f).map ((), ·)) ?_
  rw [FrameTable.pin_of_owned h howner, if_pos hpins]
  rfl

theorem run_unpin (h : m.frameInfo? f = some i) (hpins : i.pins ≠ 0) :
    (unpin f).run m = .ok () (m.withFrames (m.kernel.frames.dropPin f i)) := by
  obtain ⟨woke, hw⟩ := FrameTable.unpin_of_pinned (t := m.kernel.frames) h hpins
  refine run_onFrames (m := m) (f := fun t => (t.unpin f).map fun r => ((), r.2)) ?_
  rw [hw]
  rfl

theorem run_setReferenced (h : m.frameInfo? f = some i) (b : Bool) :
    (setReferenced f b).run m = .ok () (m.withFrames
      (m.kernel.frames.withInfo f { i with referenced := b })) := by
  refine run_onFrames (m := m) (f := fun t => (t.setReferenced f b).map ((), ·)) ?_
  rw [FrameTable.setReferenced_of_info? h]
  rfl

theorem run_selectVictim_none {t : FrameTable ProcessId}
    (h : m.kernel.frames.selectVictim = (none, t)) : selectVictim.run m = .ok none m := by
  have ht := (FrameTable.selectVictim_none h).1
  have hrun := run_onFrames (m := m) (f := fun t => .ok t.selectVictim) (congrArg Except.ok h)
  simp only [selectVictim, EStateM.run_bind, hrun, EStateM.run_pure]
  rw [ht]
  rfl

theorem run_selectVictim_some {t : FrameTable ProcessId}
    (h : m.kernel.frames.selectVictim = (some f, t)) (hi : t.info? f = some i) :
    selectVictim.run m = .ok (some f)
      ((m.withFrames t).noted (.choseVictim f i t.clock.hand)) := by
  have hrun := run_onFrames (m := m) (f := fun t => .ok t.selectVictim) (congrArg Except.ok h)
  have hinfo := run_frameInfo (m := m.withFrames t) (f := f) hi
  simp only [selectVictim, EStateM.run_bind, hrun, hinfo, EStateM.run_get, run_note,
    EStateM.run_pure]
  rfl

/-- An error of `x` passes after the frame was given back, a violation passes as it is. -/
theorem run_orGiveBack (f : FrameNumber) (x : Action Unit) (m : Machine) :
    (orGiveBack f x).run m =
      match x.run m with
      | .ok () m' => .ok () m'
      | .error (.violation v) m' => .error (.violation v) m'
      | .error (.error e) m' => (do unpin f; release f; fail e : Action Unit).run m' := by
  simp only [orGiveBack, tryCatch, tryCatchThe, MonadExceptOf.tryCatch, EStateM.tryCatch,
    EStateM.run, EStateM.Backtrackable.save, EStateM.Backtrackable.restore]
  cases x m with
  | ok a m' => rfl
  | error stop m' => cases stop <;> rfl

end Action

end DemandPaging
