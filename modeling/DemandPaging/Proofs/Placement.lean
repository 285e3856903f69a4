import DemandPaging.Proofs.Faults

/-!
# Where pages are placed

What an attempt has done is read off its run, part by part: which frame the pool granted
(`Machine.Granted`), from which page that frame was taken (`Machine.Vacated`), and how the page was
brought in (`Machine.Installed`). Each record names the kernel after the change as a whole, so whatever
it does not name is as before. Nothing is assumed of the machine.
-/

namespace DemandPaging

open Machine

/-! ## Results of actions -/

namespace Action

variable {α β : Type} {m m' : Machine} {stop : Stop VmError} {a : α}

/-- Two actions succeed one after the other. -/
theorem run_bind_eq_ok {x : Action α} {f : α → Action β} {b : β} :
    (x >>= f).run m = .ok b m' ↔ ∃ a m₁, x.run m = .ok a m₁ ∧ (f a).run m₁ = .ok b m' := by
  rw [EStateM.run_bind]
  cases x.run m <;> simp

/-- Of two actions one after the other, the first fails or the second. -/
theorem run_bind_eq_error {x : Action α} {f : α → Action β} :
    (x >>= f).run m = .error stop m' ↔ x.run m = .error stop m' ∨
      ∃ a m₁, x.run m = .ok a m₁ ∧ (f a).run m₁ = .error stop m' := by
  rw [EStateM.run_bind]
  cases x.run m <;> simp

theorem run_onFrames_eq_ok
    {f : FrameTable ProcessId → Except Violation (α × FrameTable ProcessId)} :
    (onFrames f).run m = .ok a m' ↔ ∃ t, f m.kernel.frames = .ok (a, t) ∧ m' = m.withFrames t := by
  cases hf : f m.kernel.frames with
  | error v => simp [run_onFrames_error hf]
  | ok r => simp [run_onFrames hf, Prod.ext_iff, eq_comm, and_assoc]

theorem run_onFrames_map_eq_ok {u : Unit}
    {f : FrameTable ProcessId → Except Violation (FrameTable ProcessId)} :
    (onFrames fun t => (f t).map ((), ·)).run m = .ok u m' ↔
      ∃ t, f m.kernel.frames = .ok t ∧ m' = m.withFrames t := by
  rw [run_onFrames_eq_ok]
  cases f m.kernel.frames <;> simp [Except.map]

theorem run_onFrames_eq_error
    {f : FrameTable ProcessId → Except Violation (α × FrameTable ProcessId)} :
    (onFrames f).run m = .error stop m' ↔
      ∃ v, f m.kernel.frames = .error v ∧ stop = .violation v ∧ m' = m := by
  cases hf : f m.kernel.frames with
  | error v => simp [run_onFrames_error hf, eq_comm]
  | ok r => simp [run_onFrames hf]

theorem run_onMemory_eq_ok {f : PhysicalMemory → Except Violation PhysicalMemory} {u : Unit} :
    (onMemory f).run m = .ok u m' ↔ ∃ b, f m.kernel.memory = .ok b ∧ m' = m.withMemory b := by
  cases hf : f m.kernel.memory with
  | error v => simp [onMemory, EStateM.run_bind, EStateM.run_get, ofExcept, hf]
  | ok b => simp [run_onMemory hf, eq_comm]

theorem run_changeTable_eq_ok {p : UserProcess} {u : Unit}
    {f : PageTable → Except (Stop PageTableError) PageTable} :
    (changeTable p f).run m = .ok u m' ↔ ∃ t, f (m.table p) = .ok t ∧ m' = m.withTable p t := by
  cases hf : f (m.table p) with
  | error e => simp [changeTable, EStateM.run_bind, EStateM.run_get, hf]
  | ok t => simp [run_changeTable hf, eq_comm]

theorem run_frameInfo_eq_ok {f : FrameNumber} {i : FrameInfo ProcessId} :
    (frameInfo f).run m = .ok i m' ↔ m.frameInfo? f = some i ∧ m = m' := by
  cases hf : m.frameInfo? f with
  | none => simp [frameInfo, EStateM.run_bind, EStateM.run_get, hf]
  | some j => simp [run_frameInfo hf]

theorem run_frameBytes_eq_ok {f : FrameNumber} {content : Page} :
    (frameBytes f).run m = .ok content m' ↔
      m.kernel.memory.frames[f.toNat]? = some content ∧ m = m' := by
  cases hf : m.kernel.memory.frames[f.toNat]? with
  | none => simp [frameBytes, EStateM.run_bind, EStateM.run_get, PhysicalMemory.frame, ofExcept, hf]
  | some p => simp [run_frameBytes hf]

end Action

/-! ## The pool -/

namespace FrameTable

variable {O : Type} {t t' : FrameTable O} {f : FrameNumber}

/-- A frame that is handed out is on top of the free list. -/
theorem of_allocate {owner : O} {page : PageNumber}
    (h : t.allocate owner page = .ok (some f, t')) :
    (∃ fs, t.free.stack = f :: fs) ∧ t' = t.handOut f owner page := by
  unfold allocate FreeList.pop? at h
  split at h
  · cases h
  · next g fs hpop =>
    split at hpop
    · cases hpop
    · next hstack =>
      cases hpop
      unfold Directory.assign at h
      split at h
      · cases h
      · split at h
        · cases h
          exact ⟨⟨_, hstack⟩, by rw [handOut, hstack]; rfl⟩
        · cases h

theorem of_allocate_none {owner : O} {page : PageNumber}
    (h : t.allocate owner page = .ok (none, t')) : t.free.stack = [] ∧ t' = t := by
  unfold allocate at h
  split at h
  · next hpop =>
    cases h
    exact ⟨FreeList.pop?_eq_none_iff.mp hpop, rfl⟩
  · unfold Directory.assign at h
    split at h
    · cases h
    · split at h <;> cases h

/-- A frame that is taken back was owned and had no pins. -/
theorem of_release (h : t.release f = .ok t') :
    (∃ i, t.info? f = some i ∧ i.owner ≠ none ∧ i.pins = 0) ∧ t' = t.takeBack f := by
  unfold release at h
  split at h
  · cases h
  · next i hi =>
    split at h
    · cases h
    · next hfree =>
      split at h
      · cases h
      · next hpinned =>
        have howned : i.owner ≠ none := fun hnone => hfree (by rw [FrameInfo.isFree, hnone]; rfl)
        have hpins : i.pins = 0 := by simpa [FrameInfo.isPinned] using hpinned
        simp only [Directory.clear, Directory.update, hi, FreeList.push] at h
        cases hlisted : t.free.listed[f.toNat]? with
        | none => rw [hlisted] at h; cases h
        | some listed =>
          rw [hlisted] at h
          cases listed <;> cases h
          exact ⟨⟨i, hi, howned, hpins⟩, rfl⟩

theorem of_setReferenced {b : Bool} (h : t.setReferenced f b = .ok t') :
    ∃ i, t.info? f = some i ∧ t' = t.withInfo f { i with referenced := b } := by
  unfold setReferenced Directory.update at h
  split at h
  · cases h
  · next i hi =>
    cases h
    exact ⟨i, hi, rfl⟩

end FrameTable

namespace Machine

variable {m m' m₁ : Machine} {p q : UserProcess} {page : PageNumber} {e : PageEntry}
  {f : FrameNumber} {i : FrameInfo ProcessId}

/-! ## Records of a placement -/

/-- The frame `f` was taken from the page of `q` that the directory recorded for it. A dirty page was
saved with the bytes that it had. -/
structure Vacated (m m' : Machine) (f : FrameNumber) (q : UserProcess) (page : PageNumber)
    (e : PageEntry) : Prop where
  info : ∃ i pid, m.frameInfo? f = some i ∧ i.pins = 0 ∧ i.owner = some pid ∧ i.page = page ∧
    m.process? pid = some q
  entry : m.entryOf? q page = some e
  frame : e.frame? = some f
  saved : e.dirty = true → ∃ content, m.kernel.memory.frames[f.toNat]? = some content ∧
    m.kernel.swap.store (q.pid, page) content.bytes = .ok m'.kernel.swap
  spared : e.dirty = false → m'.kernel.swap = m.kernel.swap
  kernel : m'.kernel = { m.kernel with
    frames := m.kernel.frames.takeBack f
    swap := m'.kernel.swap
    stats := { m.kernel.stats with
      evictions := m.kernel.stats.evictions + 1
      swapWrites := m.kernel.stats.swapWrites + e.dirty.toNat } }
  tables : m'.tables = (m.withEntry q page e.evicted).tables

/-- The pool granted the frame `f` for `page` of `p`: the top of the free list, or else the frame of a
victim that the clock chose. -/
inductive Granted (m m' : Machine) (p : UserProcess) (page : PageNumber) (f : FrameNumber) : Prop
  | free {fs : List FrameNumber} (stack : m.kernel.frames.free.stack = f :: fs)
      (eq : m' = m.handedOut p page f)
  | evicted {t : FrameTable ProcessId} {ev : Event} {m₁ : Machine} {q : UserProcess}
      {page' : PageNumber} {e : PageEntry} (stack : m.kernel.frames.free.stack = [])
      (victim : m.kernel.frames.selectVictim = (some f, t))
      (vacated : ((m.withFrames t).noted ev).Vacated m₁ f q page' e)
      (eq : m' = m₁.handedOut p page f)

/-- Reads of the swap store that it takes to bring in a page: one if it holds a copy. -/
def reads (m : Machine) (p : UserProcess) (page : PageNumber) : Nat :=
  (m.kernel.swap.contains (p.pid, page)).toNat

/-- The frame `f` was filled with the stored content of a page. -/
structure Loaded (m m' : Machine) (p : UserProcess) (page : PageNumber) (f : FrameNumber)
    (content : Page) : Prop where
  stored : m.storedContent? p page = some content
  kernel : m'.kernel = { m.kernel with
    memory := ⟨m.kernel.memory.frames.setIfInBounds f.toNat content⟩
    swap := { m.kernel.swap with loads := m.kernel.swap.loads + m.reads p page }
    stats := { m.kernel.stats with swapReads := m.kernel.stats.swapReads + m.reads p page } }
  tables : m'.tables = m.tables

/-- The page, which had the entry `e`, was brought into the frame `f`. -/
structure Installed (m m' : Machine) (p : UserProcess) (page : PageNumber) (f : FrameNumber)
    (e : PageEntry) (i : FrameInfo ProcessId) (content : Page) : Prop where
  entry : m.entryOf? p page = some e
  absent : e.valid = false
  info : m.frameInfo? f = some i
  stored : m.storedContent? p page = some content
  kernel : m'.kernel = { m.kernel with
    frames := m.kernel.frames.withInfo f { i with referenced := m.kernel.config.referenceOnInstall }
    memory := ⟨m.kernel.memory.frames.setIfInBounds f.toNat content⟩
    swap := { m.kernel.swap with loads := m.kernel.swap.loads + m.reads p page }
    stats := { m.kernel.stats with
      faults := m.kernel.stats.faults + 1
      swapReads := m.kernel.stats.swapReads + m.reads p page } }
  tables : ∃ v, PageEntry.frameBits? f = some v ∧ m'.tables =
    (m.withEntry p page (.resident v e.readOnly m.kernel.config.referenceOnInstall)).tables

end Machine

namespace Action

variable {m m' : Machine} {p q : UserProcess} {page : PageNumber} {f : FrameNumber} {u : Unit}

/-! ## A frame is granted -/

theorem of_run_allocate {owner : ProcessId} (h : (allocate owner page).run m = .ok (some f) m') :
    (∃ fs, m.kernel.frames.free.stack = f :: fs) ∧ m' =
      (m.withFrames (m.kernel.frames.handOut f owner page)).noted (.allocated f owner page) := by
  simp only [allocate, run_bind_eq_ok, run_onFrames_eq_ok] at h
  obtain ⟨g, m₁, ⟨t, ht, rfl⟩, h⟩ := h
  cases g with
  | none => cases h
  | some g =>
    cases h
    obtain ⟨hstack, rfl⟩ := FrameTable.of_allocate ht
    exact ⟨hstack, rfl⟩

theorem of_run_allocate_none {owner : ProcessId}
    (h : (allocate owner page).run m = .ok none m') :
    m.kernel.frames.free.stack = [] ∧ m' = m := by
  simp only [allocate, run_bind_eq_ok, run_onFrames_eq_ok] at h
  obtain ⟨g, m₁, ⟨t, ht, rfl⟩, h⟩ := h
  cases g with
  | none =>
    cases h
    obtain ⟨hstack, rfl⟩ := FrameTable.of_allocate_none ht
    exact ⟨hstack, rfl⟩
  | some g => cases h

theorem of_run_selectVictim (h : selectVictim.run m = .ok (some f) m') :
    ∃ t ev, m.kernel.frames.selectVictim = (some f, t) ∧ m' = (m.withFrames t).noted ev := by
  simp only [selectVictim, run_bind_eq_ok, run_onFrames_eq_ok] at h
  obtain ⟨g, m₁, ⟨t, ht, rfl⟩, h⟩ := h
  cases g with
  | none => cases h
  | some g =>
    simp only [run_bind_eq_ok, run_frameInfo_eq_ok, EStateM.run_get, run_note] at h
    obtain ⟨i, m₂, ⟨-, rfl⟩, m₃, m₄, heq, u, m₅, hnoted, h⟩ := h
    cases heq
    cases hnoted
    cases h
    exact ⟨t, _, Except.ok.inj ht, rfl⟩

theorem of_run_saveToSwap {e : PageEntry} (h : (saveToSwap q page e f).run m = .ok u m') :
    ∃ content swap, m.kernel.memory.frames[f.toNat]? = some content ∧
      m.kernel.swap.store (q.pid, page) content.bytes = .ok swap ∧
      m' = (m.withSwap swap).counted fun s => { s with swapWrites := s.swapWrites + 1 } := by
  simp only [saveToSwap, run_bind_eq_ok, run_frameBytes_eq_ok, EStateM.run_get] at h
  obtain ⟨content, m₁, ⟨hcontent, rfl⟩, m₂, m₃, heq, h⟩ := h
  cases heq
  split at h
  · next swap hstore =>
    cases h
    exact ⟨content, swap, hcontent, hstore, rfl⟩
  · simp only [run_bind_eq_ok, run_fail, reduceCtorEq, and_false, exists_false] at h

theorem of_run_unmapVictim (h : (unmapVictim q page f).run m = .ok u m') :
    ∃ e, m.entryOf? q page = some e ∧ e.frame? = some f ∧
      (e.dirty = true → ∃ content, m.kernel.memory.frames[f.toNat]? = some content ∧
        m.kernel.swap.store (q.pid, page) content.bytes = .ok m'.kernel.swap) ∧
      (e.dirty = false → m'.kernel.swap = m.kernel.swap) ∧
      m'.kernel = { m.kernel with
        swap := m'.kernel.swap
        stats := { m.kernel.stats with
          swapWrites := m.kernel.stats.swapWrites + e.dirty.toNat } } ∧
      m'.tables = (m.withEntry q page e.evicted).tables := by
  simp only [unmapVictim, run_bind_eq_ok, EStateM.run_get, run_onTable] at h
  obtain ⟨m₁, m₂, heq, u₁, m₃, hunmap, h⟩ := h
  cases heq
  cases hunmap
  cases he : m.entryOf? q page with
  | none =>
    rw [he] at h
    cases h
  | some e =>
    rw [he] at h
    dsimp only at h
    split at h
    · next hframe =>
      rw [PageTable.invalidate_of_valid he (PageEntry.valid_of_frame? hframe)] at h
      refine ⟨e, rfl, hframe, ?_⟩
      cases hd : e.dirty with
      | true =>
        simp only [hd, if_true, run_bind_eq_ok] at h
        obtain ⟨u₂, m₄, hsave, h⟩ := h
        obtain ⟨content, swap, hcontent, hstore, rfl⟩ := of_run_saveToSwap hsave
        cases h
        exact ⟨fun _ => ⟨content, hcontent, hstore⟩, (fun hclean => by cases hclean), rfl, rfl⟩
      | false =>
        simp only [hd, Bool.false_eq_true, if_false] at h
        cases h
        exact ⟨(fun hdirty => by cases hdirty), fun _ => rfl, rfl, rfl⟩
    · cases h

theorem of_run_release (h : (release f).run m = .ok u m') :
    m' = (m.withFrames (m.kernel.frames.takeBack f)).noted (.released f) := by
  simp only [release, run_bind_eq_ok, run_onFrames_map_eq_ok] at h
  obtain ⟨u₁, m₁, ⟨t, ht, rfl⟩, h⟩ := h
  obtain ⟨-, rfl⟩ := FrameTable.of_release ht
  cases h
  rfl

/-- **An eviction that succeeds** has taken the frame from the page that the directory recorded. -/
theorem of_run_evict (h : (evict f).run m = .ok u m') : ∃ q page e, m.Vacated m' f q page e := by
  simp only [evict, run_bind_eq_ok, run_frameInfo_eq_ok] at h
  obtain ⟨i, m₁, ⟨hi, rfl⟩, h⟩ := h
  cases howner : i.owner with
  | none =>
    rw [howner] at h
    cases h
  | some pid =>
    rw [howner] at h
    dsimp only at h
    split at h
    · cases h
    · next hpinned =>
      simp only [run_bind_eq_ok, EStateM.run_get] at h
      obtain ⟨m₂, m₃, heq, h⟩ := h
      cases heq
      cases hq : m.process? pid with
      | none =>
        rw [hq] at h
        cases h
      | some q =>
        rw [hq] at h
        simp only [run_bind_eq_ok, run_count] at h
        obtain ⟨u₁, m₄, hunmap, u₂, m₅, hrelease, h⟩ := h
        obtain ⟨e, he, hf, hsaved, hspared, hkernel, htables⟩ := of_run_unmapVictim hunmap
        cases of_run_release hrelease
        cases h
        refine ⟨q, i.page, e, ⟨i, pid, hi, by simpa [FrameInfo.isPinned] using hpinned, howner, rfl, hq⟩,
          he, hf, hsaved, hspared, ?_, htables⟩
        simp only [kernel_counted, kernel_noted, kernel_withFrames]
        rw [hkernel]

/-- A frame that is got was granted by the pool. -/
theorem of_run_acquireFrame (h : (acquireFrame p page).run m = .ok (some f) m') :
    m.Granted m' p page f := by
  simp only [acquireFrame, run_bind_eq_ok] at h
  obtain ⟨g, m₁, halloc, h⟩ := h
  cases g with
  | some g =>
    cases h
    obtain ⟨⟨fs, hstack⟩, heq⟩ := of_run_allocate halloc
    exact .free hstack heq
  | none =>
    obtain ⟨hstack, rfl⟩ := of_run_allocate_none halloc
    simp only [run_bind_eq_ok] at h
    obtain ⟨g, m₂, hselect, h⟩ := h
    cases g with
    | none => cases h
    | some g =>
      simp only [run_bind_eq_ok] at h
      obtain ⟨u₁, m₃, hevict, h⟩ := h
      obtain ⟨t, ev, hvictim, rfl⟩ := of_run_selectVictim hselect
      obtain ⟨q, page', e, hvacated⟩ := of_run_evict hevict
      obtain ⟨⟨fs, htop⟩, heq⟩ := of_run_allocate h
      rw [hvacated.kernel] at htop
      cases htop
      exact .evicted hstack hvictim hvacated heq

/-! ## A page is brought in -/

theorem of_run_setFrame {content : Page} (h : (onMemory (·.setFrame f content)).run m = .ok u m') :
    m' = m.withMemory ⟨m.kernel.memory.frames.setIfInBounds f.toNat content⟩ := by
  obtain ⟨b, hb, rfl⟩ := run_onMemory_eq_ok.mp h
  unfold PhysicalMemory.setFrame at hb
  split at hb <;> cases hb
  rfl

theorem of_run_populate (h : (populate p page f).run m = .ok u m') :
    ∃ content, m.Loaded m' p page f content := by
  simp only [populate, run_bind_eq_ok, EStateM.run_get] at h
  obtain ⟨m₁, m₂, heq, h⟩ := h
  cases heq
  rcases load_page m.kernel.swap (p.pid, page) with ⟨-, hload⟩ | ⟨hload, hcopy⟩ |
    ⟨copy, hload, hcopy⟩
  · rw [hload] at h
    cases h
  · have hreads : m.reads p page = 0 := by rw [reads, Swap.contains, hcopy]; rfl
    rw [hload] at h
    dsimp only at h
    split at h
    · cases h
    · next content hinit =>
      rw [of_run_setFrame h]
      refine ⟨content, ?_, ?_, rfl⟩
      · rw [storedContent?, hcopy, hinit]
        rfl
      · rw [hreads]
        rfl
  · have hreads : m.reads p page = 1 := by rw [reads, Swap.contains, hcopy]; rfl
    rw [hload] at h
    simp only [run_bind_eq_ok, run_setSwap, run_count, run_note] at h
    obtain ⟨u₁, m₃, heq, u₂, m₄, hfill, u₃, m₅, hcount, h⟩ := h
    cases heq
    cases hcount
    cases h
    rw [of_run_setFrame hfill]
    refine ⟨copy, ?_, ?_, rfl⟩
    · rw [storedContent?, hcopy, Option.some_or]
    · rw [hreads]
      rfl

/-- What may be given back succeeds only if it need not be. -/
theorem of_run_orGiveBack {x : Action Unit} (h : (orGiveBack f x).run m = .ok u m') :
    x.run m = .ok () m' := by
  rw [run_orGiveBack] at h
  split at h
  · next hx =>
    cases h
    exact hx
  · cases h
  · simp only [run_bind_eq_ok, run_fail, reduceCtorEq, and_false, exists_false] at h

/-- **A page that was brought in** lies in the frame with its stored content. -/
theorem of_run_bringIn (h : (bringIn p page f).run m = .ok u m') :
    ∃ e i content, m.Installed m' p page f e i content := by
  simp only [bringIn, run_bind_eq_ok, EStateM.run_get, run_note, run_count, setReferenced,
    run_onFrames_map_eq_ok] at h
  obtain ⟨m₀, m₁, heq, u₁, m₂, hnote, u₂, m₃, hpopulate, u₃, m₄, hnote', u₄, m₅, hinstall, u₅, m₆,
    ⟨t, ht, rfl⟩, u₆, m₇, hcount, h⟩ := h
  cases heq
  cases hnote
  cases hnote'
  cases hcount
  cases h
  obtain ⟨content, hloaded⟩ := of_run_populate (of_run_orGiveBack hpopulate)
  obtain ⟨pt, hpt, rfl⟩ := run_changeTable_eq_ok.mp (of_run_orGiveBack hinstall)
  obtain ⟨e, v, he, hvalid, hv, rfl⟩ := PageTable.install_eq_ok_iff.mp hpt
  obtain ⟨i, hi, rfl⟩ := FrameTable.of_setReferenced ht
  have htable : m₃.table p = m.table p := by rw [table, hloaded.tables]; rfl
  have hframes : m₃.kernel.frames = m.kernel.frames := by rw [hloaded.kernel]; rfl
  refine ⟨e, i, content, ?_, hvalid, ?_, hloaded.stored, ?_, v, hv, ?_⟩
  · rw [← he]
    exact congrArg (·.get? page) htable.symm
  · rw [← hi]
    exact congrArg (·.info? f) hframes.symm
  · simp only [kernel_noted, kernel_counted, kernel_withFrames, kernel_withTable]
    rw [hloaded.kernel]
    rfl
  · have htables : (m₃.noted (.faultInstall p.pid page)).table p = m.table p := htable
    simp only [tables_noted, tables_counted, tables_withFrames, withEntry, withTable, htables,
      hloaded.tables]

end Action

namespace Machine

variable {m m' m₁ : Machine} {p q r : UserProcess} {page page' : PageNumber} {e e' : PageEntry}
  {f : FrameNumber}

/-! ## Attempts that succeed -/

/-- The page was not resident. The pool granted the frame `f` for it, and it was brought in. -/
def Placed (m m' : Machine) (p : UserProcess) (page : PageNumber) (f : FrameNumber) : Prop :=
  ∃ (m₀ m₁ : Machine) (e : PageEntry) (i : FrameInfo ProcessId) (content : Page),
    m₀.kernel = m.kernel ∧ m₀.tables = m.tables ∧ m₀.Granted m₁ p page f ∧
      m₁.Installed m' p page f e i content

/-- The page lay in the frame `f`, which got one pin more. -/
def Hit (m m' : Machine) (p : UserProcess) (page : PageNumber) (f : FrameNumber) : Prop :=
  (m.table p).translate? page = some f ∧ ∃ i, m.frameInfo? f = some i ∧
    m' = m.withFrames (m.kernel.frames.withInfo f { i with pins := i.pins + 1, referenced := true })

end Machine

namespace FrameTable

variable {O : Type} {t : FrameTable O} {f : FrameNumber} {i : FrameInfo O}

theorem withInfo_withInfo (t : FrameTable O) (f : FrameNumber) (i j : FrameInfo O) :
    (t.withInfo f i).withInfo f j = t.withInfo f j := by
  simp only [withInfo, Directory.set, Array.setIfInBounds_setIfInBounds]

theorem eq_of_info?_handOut {owner : O} {page : PageNumber}
    (h : (t.handOut f owner page).info? f = some i) : i = ⟨some owner, page, 1, false⟩ := by
  simp only [handOut, info?, Directory.get?_set, if_true, Option.map_eq_some_iff] at h
  obtain ⟨-, -, hi⟩ := h
  exact hi.symm

theorem of_pin {t' : FrameTable O} (h : t.pin f = .ok t') :
    ∃ i, t.info? f = some i ∧ t' = t.withInfo f { i with pins := i.pins + 1 } := by
  unfold pin at h
  split at h
  · cases h
  · next i hi =>
    split at h
    · cases h
    · split at h <;> cases h
      exact ⟨i, hi, rfl⟩

end FrameTable

namespace Action

variable {m m' : Machine} {p : UserProcess} {page : PageNumber} {f : FrameNumber}
  {kind : AccessKind}

theorem of_run_permittedEntry {e : PageEntry} (h : (permittedEntry p page kind).run m = .ok e m') :
    m.kernel.registry.contains p.pid = true ∧ m.entryOf? p page = some e ∧
      (kind.isWrite && e.readOnly) = false ∧ m = m' := by
  simp only [permittedEntry, run_bind_eq_ok, EStateM.run_get] at h
  obtain ⟨m₁, m₂, heq, h⟩ := h
  cases heq
  split at h
  · next hcontains =>
    split at h
    · cases h
    · next e' he =>
      split at h
      · cases h
      · next hwrite =>
        cases h
        exact ⟨hcontains, he, Bool.not_eq_true _ ▸ hwrite, rfl⟩
  · cases h

theorem of_run_serveMiss (h : (serveMiss p page).run m = .ok (.pinned f) m') :
    m.Placed m' p page f := by
  simp only [serveMiss, run_bind_eq_ok, run_note] at h
  obtain ⟨u₁, m₁, hnote, u₂, m₂, hnote', g, m₃, hacquire, h⟩ := h
  cases hnote
  cases hnote'
  cases g with
  | none =>
    simp only [run_bind_eq_ok] at h
    obtain ⟨t, m₄, -, h⟩ := h
    cases h
  | some g =>
    simp only [run_bind_eq_ok] at h
    obtain ⟨u, m₄, hbring, h⟩ := h
    cases h
    obtain ⟨e, i, content, hinstalled⟩ := of_run_bringIn hbring
    refine ⟨_, m₃, e, i, content, ?_, ?_, of_run_acquireFrame hacquire, hinstalled⟩ <;> rfl

/-- **An attempt that gets at its page** found it resident or has brought it in. -/
theorem of_run_resolve (h : (resolve p page kind).run m = .ok (.pinned f) m') :
    m.kernel.registry.contains p.pid = true ∧ (m.Hit m' p page f ∨
      (m.table p).translate? page = none ∧ m.Placed m' p page f) := by
  simp only [resolve, run_bind_eq_ok] at h
  obtain ⟨e, m₁, hentry, h⟩ := h
  obtain ⟨hcontains, he, -, rfl⟩ := of_run_permittedEntry hentry
  have htranslate : (m.table p).translate? page = e.frame? := by
    rw [translate?_table, he, Option.bind_some]
  refine ⟨hcontains, ?_⟩
  split at h
  · next g hg =>
    simp only [run_bind_eq_ok, pin, setReferenced, run_onFrames_map_eq_ok] at h
    obtain ⟨u₁, m₂, ⟨t, ht, rfl⟩, u₂, m₃, ⟨t', ht', rfl⟩, h⟩ := h
    cases h
    obtain ⟨i, hi, rfl⟩ := FrameTable.of_pin ht
    obtain ⟨j, hj, rfl⟩ := FrameTable.of_setReferenced ht'
    have hinfo := (FrameTable.info?_withInfo hi { i with pins := i.pins + 1 } f).symm.trans hj
    rw [if_pos rfl, Option.some.injEq] at hinfo
    refine Or.inl ⟨htranslate.trans hg, i, hi, ?_⟩
    rw [← hinfo]
    exact congrArg m.withFrames (FrameTable.withInfo_withInfo ..)
  · next hnone => exact Or.inr ⟨htranslate.trans hnone, of_run_serveMiss h⟩

end Action

namespace Machine

variable {m m' m₁ : Machine} {p q r : UserProcess} {page page' : PageNumber} {e e' : PageEntry}
  {f : FrameNumber}

/-! ## Tables after a placement -/

theorem index_lt_of_entry (he : m.entryOf? p page = some e) : p.table.index < m.tables.size := by
  by_contra hge
  rw [entryOf?, table, Array.getElem?_eq_none (by omega)] at he
  cases he

/-- One entry was changed, in the table of `q`. -/
theorem entryOf?_withEntry_eq (he : m.entryOf? q page = some e) (e' : PageEntry) (r : UserProcess)
    (page' : PageNumber) : (m.withEntry q page e').entryOf? r page' =
      if r.table.index = q.table.index ∧ page' = page then some e' else m.entryOf? r page' := by
  have hget : (m.table q).get? page = some e := he
  rw [entryOf?, withEntry, table_withTable (index_lt_of_entry he)]
  by_cases hindex : r.table.index = q.table.index
  · have htable : m.table r = m.table q := by rw [table, table, hindex]
    rw [if_pos hindex, PageTable.get?_setEntry, hget, entryOf?, htable]
    by_cases hpage : page' = page
    · rw [if_pos hpage, if_pos ⟨hindex, hpage⟩, Option.map_some]
    · rw [if_neg hpage, if_neg fun h => hpage h.2]
  · rw [if_neg hindex, if_neg fun h => hindex h.1, entryOf?]

/-- The record of a frame that holds a page which has just been brought in. -/
def placedInfo (m : Machine) (p : UserProcess) (page : PageNumber) : FrameInfo ProcessId :=
  ⟨some p.pid, page, 1, m.kernel.config.referenceOnInstall⟩

/-- What a placement does to the frame table: the frame comes from the free list, or from the clock. -/
inductive PoolPlaced (t t' : FrameTable ProcessId) (f : FrameNumber) (j : FrameInfo ProcessId) : Prop
  | free {fs : List FrameNumber} (stack : t.free.stack = f :: fs) (stack' : t'.free.stack = fs)
      (directory : t'.directory = t.directory.set f j) (clock : t'.clock = t.clock)
  | evicted {u : FrameTable ProcessId} (stack : t.free.stack = []) (stack' : t'.free.stack = [])
      (victim : t.selectVictim = (some f, u)) (directory : t'.directory = u.directory.set f j)
      (clock : t'.clock = u.clock)

/-- What a placement does to the page tables: the page gets the frame, and the page that the directory
recorded for the frame loses it. -/
inductive TablesPlaced (m m' : Machine) (p : UserProcess) (page : PageNumber) (f : FrameNumber) : Prop
  | free (stack : m.kernel.frames.free.stack ≠ [])
      (table : ∀ (r : UserProcess) (page' : PageNumber), (m'.table r).translate? page' =
        if r.table.index = p.table.index ∧ page' = page then some f
        else (m.table r).translate? page')
  | evicted {q : UserProcess} {page₁ : PageNumber} {i : FrameInfo ProcessId} {pid : ProcessId}
      (stack : m.kernel.frames.free.stack = []) (info : m.frameInfo? f = some i)
      (owner : i.owner = some pid) (held : i.page = page₁) (process : m.process? pid = some q)
      (mapped : (m.table q).translate? page₁ = some f)
      (table : ∀ (r : UserProcess) (page' : PageNumber), (m'.table r).translate? page' =
        if r.table.index = p.table.index ∧ page' = page then some f
        else if r.table.index = q.table.index ∧ page' = page₁ then none
        else (m.table r).translate? page')

theorem Installed.entryOf? (h : m₁.Installed m' p page f e i content) : ∃ e' : PageEntry,
    e'.frame? = some f ∧ e'.dirty = false ∧ ∀ (r : UserProcess) (page' : PageNumber),
      m'.entryOf? r page' = if r.table.index = p.table.index ∧ page' = page then some e'
        else m₁.entryOf? r page' := by
  obtain ⟨v, hv, htables⟩ := h.tables
  refine ⟨.resident v e.readOnly m₁.kernel.config.referenceOnInstall,
    PageEntry.frame?_resident hv _ _, PageEntry.dirty_resident .., fun r page' => ?_⟩
  rw [← entryOf?_withEntry_eq h.entry, Machine.entryOf?, Machine.table, htables]
  rfl

theorem Installed.table (h : m₁.Installed m' p page f e i content) (r : UserProcess)
    (page' : PageNumber) : (m'.table r).translate? page' =
      if r.table.index = p.table.index ∧ page' = page then some f
      else (m₁.table r).translate? page' := by
  obtain ⟨e', hframe, -, hentry⟩ := h.entryOf?
  rw [translate?_table, hentry]
  split
  · exact hframe
  · rfl

theorem Vacated.entryOf? (h : m.Vacated m' f q page e) (r : UserProcess) (page' : PageNumber) :
    m'.entryOf? r page' = if r.table.index = q.table.index ∧ page' = page then some e.evicted
      else m.entryOf? r page' := by
  rw [← entryOf?_withEntry_eq h.entry, Machine.entryOf?, Machine.table, h.tables]
  rfl

theorem Vacated.table (h : m.Vacated m' f q page e) (r : UserProcess) (page' : PageNumber) :
    (m'.table r).translate? page' =
      if r.table.index = q.table.index ∧ page' = page then none
      else (m.table r).translate? page' := by
  rw [translate?_table, h.entryOf?]
  split
  · rw [Option.bind_some, PageEntry.frame?_evicted]
  · rfl

namespace Placed

variable (h : m.Placed m' p page f)
include h

theorem pool : PoolPlaced m.kernel.frames m'.kernel.frames f (m.placedInfo p page) := by
  obtain ⟨m₀, m₁, e, i, content, hkernel, htables, hgranted, hinstalled⟩ := h
  rw [placedInfo, ← hkernel]
  have hinfo := hinstalled.info
  have hset : ∀ (d : Directory ProcessId) (i j : FrameInfo ProcessId),
      (d.set f i).set f j = d.set f j := fun d i j => by
    simp only [Directory.set, Array.setIfInBounds_setIfInBounds]
  cases hgranted with
  | @free fs stack eq =>
    subst eq
    rw [hinstalled.kernel, FrameTable.eq_of_info?_handOut hinfo]
    exact .free stack (congrArg List.tail stack) (hset ..) rfl
  | @evicted t ev m₂ q page' e' stack victim vacated eq =>
    subst eq
    have hframes : m₂.kernel.frames = t.takeBack f := by rw [vacated.kernel]; rfl
    have hconfig : m₂.kernel.config = m₀.kernel.config := by rw [vacated.kernel]; rfl
    rw [hinstalled.kernel, FrameTable.eq_of_info?_handOut hinfo]
    refine .evicted stack ?_ victim ?_ ?_
    · simp only [FrameTable.withInfo, handedOut, kernel_noted, kernel_withFrames, hframes,
        FrameTable.handOut, FrameTable.takeBack, List.tail_cons]
      rw [(FrameTable.selectVictim_some victim).2.1, stack]
    · simp only [FrameTable.withInfo, handedOut, kernel_noted, kernel_withFrames, hframes, hconfig,
        FrameTable.handOut, FrameTable.takeBack, hset]
    · simp only [FrameTable.withInfo, handedOut, kernel_noted, kernel_withFrames, hframes,
        FrameTable.handOut, FrameTable.takeBack]

theorem tables : m.TablesPlaced m' p page f := by
  obtain ⟨m₀, m₁, e, i, content, hkernel, htables, hgranted, hinstalled⟩ := h
  have htable : ∀ r, m₀.table r = m.table r := fun r => by rw [table, table, htables]
  cases hgranted with
  | @free fs stack eq =>
    subst eq
    rw [hkernel] at stack
    refine .free (by rw [stack]; exact List.cons_ne_nil _ _) fun r page' => ?_
    rw [hinstalled.table, ← htable]
    rfl
  | @evicted t ev m₂ q page₁ e' stack victim vacated eq =>
    subst eq
    rw [hkernel] at stack victim
    obtain ⟨j, pid, hj, -, howner, hpage, hprocess⟩ := vacated.info
    obtain ⟨-, -, -, hmarks⟩ := FrameTable.selectVictim_some victim
    have hunmarked := hmarks.2 f
    have hj' : t.directory.get? f = some j := hj
    rw [hj', Option.map_some, Option.map_eq_some_iff] at hunmarked
    obtain ⟨i₀, hi₀, hsame⟩ := hunmarked
    obtain ⟨howner₀, hpage₀, -⟩ := FrameInfo.eq_of_unmarked_eq hsame
    refine .evicted (q := q) stack hi₀ (howner₀.trans howner) (hpage₀.trans hpage) ?_ ?_
      fun r page' => ?_
    · have hregistry : m₀.process? pid = some q := hprocess
      rw [← hregistry, process?, process?, hkernel]
    · rw [← htable, translate?_table]
      exact (congrArg (·.bind PageEntry.frame?) vacated.entry).trans vacated.frame
    · have hvacated := vacated.table r page'
      rw [hinstalled.table]
      refine if_congr Iff.rfl rfl (hvacated.trans (if_congr Iff.rfl rfl ?_))
      rw [← htable]
      rfl

/-- A placement counts as a fault, and as an eviction if no frame was free. -/
theorem stats : m'.kernel.stats.faults = m.kernel.stats.faults + 1 ∧ m'.kernel.stats.evictions =
    m.kernel.stats.evictions + (if m.kernel.frames.free.stack = [] then 1 else 0) := by
  obtain ⟨m₀, m₁, e, i, content, hkernel, -, hgranted, hinstalled⟩ := h
  rw [hinstalled.kernel, ← hkernel]
  cases hgranted with
  | @free fs stack eq =>
    subst eq
    rw [stack, if_neg (List.cons_ne_nil _ _)]
    exact ⟨rfl, rfl⟩
  | @evicted t ev m₂ q page₁ e' stack victim vacated eq =>
    subst eq
    rw [stack, if_pos rfl]
    simp only [handedOut, kernel_noted, kernel_withFrames]
    rw [vacated.kernel]
    exact ⟨rfl, rfl⟩

end Placed

end Machine

end DemandPaging
