import DemandPaging.Kernel.Fault
import DemandPaging.Proofs.Orderly
import DemandPaging.Proofs.PageTableLaws

/-!
# A frame for a page

A fault needs a frame: the top of the free list, or else the frame of a victim that the clock
chooses. A dirty victim is saved to swap first, and if there is no room for it, nothing has happened
but that the clock went round (`Machine.Swept`). Otherwise one page at most has lost its frame
(`Machine.Ousted`), and the frame is reserved for the fault (`Machine.Reserved`).
`Action.acquireFrame_spec` is the whole statement.
-/

namespace DemandPaging

namespace Machine

variable {m m' m₁ m₂ : Machine} {l : Ledger} {p q : UserProcess} {f : FrameNumber}
  {i : FrameInfo ProcessId} {page page' : PageNumber} {e e' : PageEntry}

/-! ## The clock goes round -/

/-- Apart from the log, only the hand of the clock and the marks of frames changed. -/
structure Swept (m m' : Machine) : Prop where
  marks : m.kernel.frames.directory.SameButMarks m'.kernel.frames.directory
  kernel : m'.kernel = { m.kernel with frames := { m.kernel.frames with
    clock := m'.kernel.frames.clock, directory := m'.kernel.frames.directory } }
  tables : m'.tables = m.tables

namespace Swept

theorem refl (m : Machine) : m.Swept m := ⟨⟨rfl, fun _ => rfl⟩, rfl, rfl⟩

theorem noted (h : m.Swept m') (ev : Event) : m.Swept (m'.noted ev) := ⟨h.marks, h.kernel, h.tables⟩

theorem trans (h : m.Swept m₁) (h' : m₁.Swept m₂) : m.Swept m₂ where
  marks := h.marks.trans h'.marks
  kernel := by rw [h'.kernel, h.kernel]
  tables := h'.tables.trans h.tables

variable (h : m.Swept m')
include h

theorem free : m'.kernel.frames.free = m.kernel.frames.free := by rw [h.kernel]

theorem waiters : m'.waiters = m.waiters := by rw [Machine.waiters, h.kernel]

theorem memory : m'.kernel.memory = m.kernel.memory := by rw [h.kernel]

theorem stats : m'.kernel.stats = m.kernel.stats := by rw [h.kernel]

theorem swap : m'.kernel.swap = m.kernel.swap := by rw [h.kernel]

theorem alike : Alike m m' where
  free := h.free
  marks := h.marks
  registry := by rw [h.kernel]
  memory := h.memory
  copies key := by rw [h.swap]
  nextPid := by rw [h.kernel]
  tables := h.tables

end Swept

/-- The clock chooses a victim. -/
theorem swept_of_selectVictim {t : FrameTable ProcessId}
    (hvictim : m.kernel.frames.selectVictim = (some f, t)) : m.Swept (m.withFrames t) := by
  obtain ⟨-, hfree, hwaiters, hmarks⟩ := FrameTable.selectVictim_some hvictim
  have hframes : t = ⟨m.kernel.frames.free, t.directory, t.clock, m.kernel.frames.waiters⟩ := by
    rw [← hfree, ← hwaiters]
  exact ⟨hmarks, congrArg (fun frames => { m.kernel with frames }) hframes, rfl⟩

/-- The clock chose the frame `f`. Apart from the log nothing else has happened. -/
structure Chosen (m m' : Machine) (f : FrameNumber) : Prop where
  choice : m.kernel.frames.selectVictim = (some f, m'.kernel.frames)
  kernel : m'.kernel = { m.kernel with frames := m'.kernel.frames }
  tables : m'.tables = m.tables

theorem Chosen.swept (h : m.Chosen m' f) : m.Swept m' := by
  have hswept := swept_of_selectVictim h.choice
  exact ⟨hswept.marks, h.kernel.trans hswept.kernel, h.tables⟩

/-- The frame can be cleared: the store takes the page that lies there, if it was written to. -/
def Clears (m : Machine) (f : FrameNumber) : Prop :=
  ∀ i q e, m.frameInfo? f = some i → i.owner = some q.pid → m.Registered q →
    m.entryOf? q i.page = some e → e.dirty = true → m.kernel.swap.Takes (q.pid, i.page)

theorem Swept.clears (h : m.Swept m') (hf : m.Clears f) : m'.Clears f := by
  intro i q e hi howner hq he hdirty
  obtain ⟨j, hj, hjowner, hjpage, -⟩ := h.alike.symm.frameInfo? hi
  rw [h.alike.entryOf?, ← hjpage] at he
  have htakes := hf j q e hj (hjowner.trans howner) ((h.alike.registered q).mp hq) he hdirty
  rwa [hjpage, ← h.swap] at htakes

/-! ## A page loses its frame -/

/-- The frame `f` was taken from the page that lay there, a page of `q` with entry `e`. -/
structure Took (m m' : Machine) (q : UserProcess) (page : PageNumber) (e : PageEntry)
    (f : FrameNumber) : Prop where
  registered : m.Registered q
  entry : m.entryOf? q page = some e
  frame : e.frame? = some f
  saved : m.Saved q page e f m'.kernel.swap
  alike : Alike (m.evicted q page e f m'.kernel.swap) m'
  frames : m'.kernel.frames = m.kernel.frames.takeBack f
  faults : m'.kernel.stats.faults = m.kernel.stats.faults

namespace Took

variable (ht : m.Took m' q page e f) (h : m.Sound l)
include ht

theorem memory : m'.kernel.memory = m.kernel.memory := ht.alike.memory

theorem tables : m'.tables = (m.withEntry q page e.evicted).tables := ht.alike.tables

include h

theorem orderly : Orderly m m' l.processes none :=
  (Orderly.evicted h ht.registered ht.entry ht.frame ht.saved).trans (.alike ht.alike _)
    fun _ hp => h.census.mem hp

variable (hi : m.frameInfo? f = some i) (hpins : i.pins = 0)
include hi hpins

theorem sound : m'.Sound l :=
  (h.evicted ht.registered ht.entry ht.frame hi hpins ht.saved).alike ht.alike

theorem keeps : Keeps m m' l.pinned :=
  (Keeps.evicted h ht.registered ht.entry ht.frame hi hpins ht.saved).trans (.alike ht.alike _)

omit h in
theorem idle : m'.idle = m.idle := by
  rw [Machine.idle, ht.frames]
  exact FrameTable.idle_takeBack hi hpins

end Took

/-- At most one page lost its frame: the one that lay in `f`. A dirty page was saved. -/
inductive Ousted (m m' : Machine) (f : FrameNumber) : Prop
  | nobody (tables : m'.tables = m.tables)
      (copies : ∀ key, m'.kernel.swap.copy? key = m.kernel.swap.copy? key)
  | victim {q : UserProcess} {page : PageNumber} {e : PageEntry} (registered : m.Registered q)
      (entry : m.entryOf? q page = some e) (frame : e.frame? = some f)
      (tables : m'.tables = (m.withEntry q page e.evicted).tables)
      (saved : m.Saved q page e f m'.kernel.swap)

theorem Took.ousted (h : m.Took m' q page e f) : m.Ousted m' f :=
  .victim h.registered h.entry h.frame h.tables h.saved

namespace Ousted

/-- The turn of the clock before does not matter. -/
theorem after (h : m₁.Ousted m' f) (hswept : m.Swept m₁) : m.Ousted m' f := by
  cases h with
  | nobody tables copies =>
    exact .nobody (tables.trans hswept.tables) fun key => (copies key).trans (by rw [hswept.swap])
  | @victim q page e registered entry frame tables saved =>
    rw [hswept.alike.entryOf?] at entry
    have htables : (m₁.withEntry q page e.evicted).tables = (m.withEntry q page e.evicted).tables := by
      simp only [withEntry, withTable, table, hswept.tables]
    refine .victim ((hswept.alike.registered q).mp registered) entry frame (tables.trans htables)
      fun key => ?_
    have hsaved := saved key
    rw [hswept.memory, hswept.swap] at hsaved
    exact hsaved

/-- What happens later to neither tables nor copies does not matter either. -/
theorem before (h : m.Ousted m₁ f) (htables : m'.tables = m₁.tables)
    (hcopies : ∀ key, m'.kernel.swap.copy? key = m₁.kernel.swap.copy? key) : m.Ousted m' f := by
  cases h with
  | nobody tables copies =>
    exact .nobody (htables.trans tables) fun key => (hcopies key).trans (copies key)
  | victim registered entry frame tables saved =>
    exact .victim registered entry frame (htables.trans tables)
      fun key => (hcopies key).trans (saved key)

/-- A page that was not resident is not the one that lost its frame. -/
theorem entryOf?_of_absent (h : m.Ousted m' f) (hm : m.Sound l) (ha : m.Absent p page e) :
    m'.entryOf? p page = some e := by
  obtain ⟨hp, he, habsent⟩ := ha
  cases h with
  | nobody tables copies =>
    rw [entryOf?, table, tables]
    exact he
  | @victim q page' e' registered entry frame tables saved =>
    have hsame : m'.entryOf? p page = (m.withEntry q page' e'.evicted).entryOf? p page := by
      rw [entryOf?, table, tables]
      rfl
    rw [hsame, entryOf?_withEntry_of_ne hm.census (hm.census.mem registered) (hm.census.mem hp) ?_,
      he]
    rw [← not_and_or]
    rintro ⟨rfl, rfl⟩
    rw [he, Option.some.injEq] at entry
    rw [← entry, habsent] at frame
    contradiction

end Ousted

theorem Took.absent (ht : m.Took m' q page' e' f) (h : m.Sound l) (ha : m.Absent p page e) :
    m'.Absent p page e :=
  ⟨(ht.alike.registered p).mpr ha.1, ht.ousted.entryOf?_of_absent h ha, ha.2.2⟩

/-! ## A frame is reserved -/

/-- The frame `f` is reserved for `page` of `p`, with one pin. The other frames are as they were. -/
structure Reserved (m m' : Machine) (p : UserProcess) (page : PageNumber) (f : FrameNumber) :
    Prop where
  info : ∃ i, m'.frameInfo? f = some i ∧ i.owner = some p.pid ∧ i.page = page ∧ i.pins = 1
  stack : m'.kernel.frames.free.stack = m.kernel.frames.free.stack.tail
  others : ∀ g, g ≠ f →
    (m'.frameInfo? g).map FrameInfo.unmarked = (m.frameInfo? g).map FrameInfo.unmarked
  memory : m'.kernel.memory = m.kernel.memory
  faults : m'.kernel.stats.faults = m.kernel.stats.faults
  ousted : m.Ousted m' f

/-- The turn of the clock before does not matter. -/
theorem Reserved.after (h : m₁.Reserved m' p page f) (hswept : m.Swept m₁) :
    m.Reserved m' p page f where
  info := h.info
  stack := by rw [h.stack, hswept.free]
  others g hg := (h.others g hg).trans (hswept.marks.2 g).symm
  memory := h.memory.trans hswept.memory
  faults := h.faults.trans (by rw [hswept.stats])
  ousted := h.ousted.after hswept

/-- The machine after the top frame of the free list was handed out. -/
def handedOut (m : Machine) (p : UserProcess) (page : PageNumber) (f : FrameNumber) : Machine :=
  (m.withFrames (m.kernel.frames.handOut f p.pid page)).noted (.allocated f p.pid page)

section HandedOut

variable (h : m.Sound l) {fs : List FrameNumber} (hfree : m.kernel.frames.free.stack = f :: fs)
include h hfree

theorem frameInfo?_handedOut (p : UserProcess) (page : PageNumber) (g : FrameNumber) :
    (m.handedOut p page f).frameInfo? g =
      if g = f then some ⟨some p.pid, page, 1, false⟩ else m.frameInfo? g := by
  obtain ⟨i, hi, -⟩ := (h.pool.mem_stack f).mp (by rw [hfree]; exact List.mem_cons_self)
  exact FrameTable.info?_handOut hi p.pid page g

theorem Sound.handedOut (hp : m.Registered p) (page : PageNumber) :
    (m.handedOut p page f).Sound { l with loose := f :: l.loose } :=
  (h.handOut hfree hp page).alike (.noted _ _)

theorem Keeps.handedOut (p : UserProcess) (page : PageNumber) :
    Keeps m (m.handedOut p page f) l.pinned :=
  (Keeps.handOut h hfree p.pid page).trans (.alike (.noted _ _) _)

theorem Orderly.handedOut (hp : m.Registered p) (page : PageNumber) :
    Orderly m (m.handedOut p page f) l.processes none :=
  (Orderly.handOut h hfree hp page _).trans (.alike (.noted _ _) _) fun _ hq => h.census.mem hq

theorem idle_handedOut (p : UserProcess) (page : PageNumber) :
    (m.handedOut p page f).idle + 1 = m.idle := by
  obtain ⟨i, hi, hnone⟩ := (h.pool.mem_stack f).mp (by rw [hfree]; exact List.mem_cons_self)
  exact FrameTable.idle_handOut hi (h.pool.unpinned f i hi hnone) p.pid page

theorem reserved_handedOut (p : UserProcess) (page : PageNumber) :
    m.Reserved (m.handedOut p page f) p page f where
  info := ⟨_, (frameInfo?_handedOut h hfree p page f).trans (if_pos rfl), rfl, rfl, rfl⟩
  stack := rfl
  others g hg := by rw [frameInfo?_handedOut h hfree, if_neg hg]
  memory := rfl
  faults := rfl
  ousted := .nobody rfl fun _ => rfl

/-- The frame of a victim goes to the page for which the victim had to make room. -/
theorem Took.reserved (ht : m₁.Took m q page e f) (hi : m₁.frameInfo? f = some i)
    (hempty : m₁.kernel.frames.free.stack = []) (p : UserProcess) (page' : PageNumber) :
    m₁.Reserved (m.handedOut p page' f) p page' f where
  info := (reserved_handedOut h hfree p page').info
  stack := by
    have hstack : m.kernel.frames.free.stack = f :: m₁.kernel.frames.free.stack := by
      rw [ht.frames]
      rfl
    have htail : (m.handedOut p page' f).kernel.frames.free.stack =
        m.kernel.frames.free.stack.tail := rfl
    rw [htail, hstack, hempty]
    rfl
  others g hg := by
    have hsame : m.frameInfo? g = m₁.frameInfo? g := by
      rw [frameInfo?, ht.frames, FrameTable.info?_takeBack hi, if_neg hg]
      rfl
    rw [frameInfo?_handedOut h hfree, if_neg hg, hsame]
  memory := ht.memory
  faults := ht.faults
  ousted := ht.ousted.before rfl fun _ => rfl

end HandedOut

/-! ## Frames without a living owner -/

/-- The frame belongs to a process that is not registered. -/
def Orphaned (m : Machine) (f : FrameNumber) (pid : ProcessId) : Prop :=
  (∃ page, m.ownerOf? f = some (pid, page)) ∧ m.process? pid = none

/-- Only a teardown that stopped half way leaves frames without a living owner. -/
theorem Sound.not_orphaned (h : m.Sound l) (hbroken : l.broken = []) (f : FrameNumber)
    (pid : ProcessId) : ¬ m.Orphaned f pid := by
  rintro ⟨⟨page, howner⟩, hdead⟩
  obtain ⟨i, hi, ho, -⟩ := ownerOf?_eq_some.mp howner
  refine absurd hdead ((h.agreement.owned f i pid hi ho).resolve_right ?_)
  rw [hbroken]
  exact List.not_mem_nil

theorem Alike.orphaned {pid : ProcessId} (h : Alike m m') (ho : m'.Orphaned f pid) :
    m.Orphaned f pid := by
  obtain ⟨⟨page, howner⟩, hdead⟩ := ho
  exact ⟨⟨page, (h.ownerOf? f).symm.trans howner⟩, (h.process? pid).symm.trans hdead⟩

end Machine

open Machine

namespace Action

variable {m : Machine} {l : Ledger} {p q : UserProcess} {f : FrameNumber}
  {i : FrameInfo ProcessId} {page : PageNumber} {e : PageEntry}

/-! ## Eviction -/

/-- The store takes a whole page, or it is full and has no copy to replace. -/
theorem store_page (s : Swap) (key : SwapKey) (content : Page) :
    (¬ s.Takes key ∧ ∃ c, s.store key content.bytes = .error (.full c)) ∨
      ∃ s', s.store key content.bytes = .ok s' ∧
        ∀ k, s'.copy? k = if k = key then some content else s.copy? k := by
  have hinsert : ∀ k, ({ s.insert key content with stores := s.stores + 1 } : Swap).copy? k =
      if k = key then some content else s.copy? k := fun k => s.copy?_insert key k content
  simp only [Swap.store, Page.ofBytes?_bytes]
  cases hcapacity : s.capacity with
  | none => exact Or.inr ⟨_, rfl, hinsert⟩
  | some c =>
    dsimp only
    split
    · next hfull =>
      rw [Bool.and_eq_true, Bool.not_eq_true', decide_eq_true_iff] at hfull
      refine Or.inl ⟨?_, c, rfl⟩
      rintro (hcopy | hroom)
      · rw [hfull.1] at hcopy
        contradiction
      · exact Nat.not_lt.mpr hfull.2 (hroom c hcapacity)
    · exact Or.inr ⟨_, rfl, hinsert⟩

theorem run_restore (h : m.Sound l) (hq : m.Registered q) (he : m.entryOf? q page = some e)
    (e' : PageEntry) (ev : Event) :
    (changeTable q fun t => (t.restore page e).mapError .error).run
      ((m.withEntry q page e').noted ev) = .ok () (m.noted ev) := by
  have hqm := h.census.mem hq
  have he' : (m.table q).get? page = some e := he
  have ht : ((m.withEntry q page e').noted ev).table q = (m.table q).setEntry page e' :=
    table_withTable_self h.census hqm _
  have hcontains : ((m.table q).setEntry page e').contains page = true := by
    rw [← PageTable.isSome_get?, PageTable.get?_setEntry, if_pos rfl, he']
    rfl
  rw [run_changeTable (t := m.table q)]
  · congr 1
    exact (congrArg (noted · ev) ((withTable_withTable m q _ _).trans (withTable_table m q)))
  · rw [ht, PageTable.restore, if_pos hcontains, PageTable.setEntry_setEntry_self he']
    rfl

/-- The mapping is dropped, and a dirty page saved first. If the store is full the mapping is put
back, so nothing has happened. -/
theorem run_unmapVictim (h : m.Sound l) (hq : m.Registered q) (he : m.entryOf? q page = some e)
    (hf : e.frame? = some f) :
    (∃ swap m', m.Saved q page e f swap ∧ m'.kernel.swap = swap ∧
      Alike ((m.withEntry q page e.evicted).withSwap swap) m' ∧
      m'.kernel.frames = m.kernel.frames ∧ m'.kernel.stats.faults = m.kernel.stats.faults ∧
      (unmapVictim q page f).run m = .ok () m') ∨
    e.dirty = true ∧ ¬ m.kernel.swap.Takes (q.pid, page) ∧
      ∃ c ev, (unmapVictim q page f).run m = .error (.error (.swap (.full c))) (m.noted ev) := by
  obtain ⟨i, hi, -⟩ := h.info_of_entry hq he hf
  obtain ⟨content, hcontent⟩ := h.exists_bytes hi
  have hunmap : (onTable q fun t => (t.invalidate page).2).run m =
      .ok () (m.withEntry q page e.evicted) := by
    rw [run_onTable, PageTable.invalidate_of_valid he (PageEntry.valid_of_frame? hf)]
    rfl
  by_cases hd : e.dirty = true
  · have hbytes : (frameBytes f).run (m.withEntry q page e.evicted) =
        .ok content (m.withEntry q page e.evicted) := run_frameBytes hcontent
    cases store_page m.kernel.swap (q.pid, page) content with
    | inl hfull =>
      obtain ⟨htakes, c, hfull⟩ := hfull
      refine Or.inr ⟨hd, htakes, c, .evictionFailed f q.pid page (.full c), ?_⟩
      have hrestore : (changeTable q fun t => (t.restore page e).mapError .error).run
          ((m.withEntry q page e.evicted).noted (.evictionFailed f q.pid page (.full c))) =
          .ok () (m.noted (.evictionFailed f q.pid page (.full c))) :=
        run_restore h hq he _ _
      simp only [unmapVictim, EStateM.run_bind, EStateM.run_get, hunmap, he, hf, if_true, hd,
        saveToSwap, hbytes, kernel_withEntry, hfull, run_note, hrestore, run_fail]
    | inr hsaved =>
      obtain ⟨swap, hstore, hcopy⟩ := hsaved
      refine Or.inl ⟨swap, (((m.withEntry q page e.evicted).withSwap swap).counted
        fun s => { s with swapWrites := s.swapWrites + 1 }).noted (.evicted q.pid page f true),
        ?_, rfl, (Alike.counted _ _).trans (.noted _ _), rfl, rfl, ?_⟩
      · intro k
        simp only [hcopy, hd, hcontent, true_and]
      · simp only [unmapVictim, EStateM.run_bind, EStateM.run_get, hunmap, he, hf, if_true, hd,
          saveToSwap, hbytes, kernel_withEntry, hstore, run_setSwap, run_count, run_note]
  · refine Or.inl ⟨m.kernel.swap, (m.withEntry q page e.evicted).noted
      (.evicted q.pid page f e.dirty), ?_, rfl, .noted _ _, rfl, rfl, ?_⟩
    · intro k
      rw [if_neg fun hc => hd hc.1]
    · simp only [unmapVictim, EStateM.run_bind, EStateM.run_get, hunmap, he, hf, if_true, hd,
        run_note, if_false, Bool.false_eq_true]

/-- An eviction fails if the store is full, or if the owner of the frame, which is not pinned, does not
live. -/
def EvictionStops (m : Machine) : Stop VmError → Prop
  | .error e => ∃ c, e = .swap (.full c)
  | .violation v => ∃ f pid, m.Orphaned f pid ∧ (∃ i, m.frameInfo? f = some i ∧ i.pins = 0) ∧
      v = .ownerUnregistered f pid

theorem EvictionStops.of_alike {m₁ : Machine} {stop : Stop VmError} (hs : EvictionStops m₁ stop)
    (h : Alike m m₁) : EvictionStops m stop := by
  cases stop with
  | error e => exact hs
  | violation v =>
    obtain ⟨f, pid, horphaned, ⟨i, hi, hpins⟩, hv⟩ := hs
    obtain ⟨j, hj, -, -, hsame⟩ := h.symm.frameInfo? hi
    exact ⟨f, pid, h.orphaned horphaned, ⟨j, hj, hsame.trans hpins⟩, hv⟩

/-- **What an eviction ends with.** Either the frame was taken from the page that lay there, or
nothing has happened. -/
theorem run_evict (h : m.Sound l) (hi : m.frameInfo? f = some i) (howner : i.owner ≠ none)
    (hpins : i.pins = 0) :
    (∃ m' q page e, m.Took m' q page e f ∧ (evict f).run m = .ok () m') ∨
    ∃ stop m', EvictionStops m stop ∧ (∀ err, stop = .error err → ¬ m.Clears f) ∧
      m'.kernel = m.kernel ∧ m'.tables = m.tables ∧ (evict f).run m = .error stop m' := by
  obtain ⟨pid, hpid⟩ := Option.ne_none_iff_exists'.mp howner
  have hunpinned : i.isPinned = false := by
    rw [FrameInfo.isPinned, hpins]
    rfl
  cases hreg : m.process? pid with
  | none =>
    have horphaned : m.Orphaned f pid := ⟨⟨i.page, ownerOf?_eq_some.mpr ⟨i, hi, hpid, rfl⟩⟩, hreg⟩
    refine Or.inr ⟨.violation (.ownerUnregistered f pid), m,
      ⟨f, pid, horphaned, ⟨i, hi, hpins⟩, rfl⟩, by rintro _ ⟨⟩, rfl, rfl, ?_⟩
    simp only [evict, EStateM.run_bind, run_frameInfo hi, hpid, hunpinned, Bool.false_eq_true,
      if_false, EStateM.run_get, hreg, run_violate]
  | some q =>
    obtain ⟨hqp, -⟩ := h.census.registered pid q hreg
    have hq : m.Registered q := by rw [Registered, hqp, hreg]
    have hloose := (h.not_pinned hi hpins).2
    have ht := h.agreement.recorded f i q hi (hqp ▸ hpid) hq hloose
    rw [translate?_table] at ht
    obtain ⟨e, he, hf⟩ := Option.bind_eq_some_iff.mp ht
    rcases run_unmapVictim h hq he hf with
      ⟨swap, m', hsaved, rfl, halike, hframes, hfaults, hrun⟩ | ⟨hdirty, htakes, c, ev, hrun⟩
    · have hi₁ : m'.frameInfo? f = some i := by
        rw [frameInfo?, hframes]
        exact hi
      have hrelease := run_release_of_unpinned (m := m') (hframes ▸ h.pool) hi₁ howner hpins
      rw [hframes] at hrelease
      let m₁ := ((m'.withFrames (m.kernel.frames.takeBack f)).noted (.released f)).counted
        fun s => { s with evictions := s.evictions + 1 }
      have hall : Alike (m.evicted q i.page e f m'.kernel.swap) m₁ :=
        ⟨rfl, ⟨rfl, fun _ => rfl⟩, halike.registry, halike.memory, halike.copies, halike.nextPid,
          halike.tables⟩
      refine Or.inl ⟨m₁, q, i.page, e, ⟨hq, he, hf, hsaved, hall, rfl, hfaults⟩, ?_⟩
      simp only [evict, EStateM.run_bind, run_frameInfo hi, hpid, hunpinned, Bool.false_eq_true,
        if_false, EStateM.run_get, hreg, hrun, hrelease, run_count, m₁]
    · have hclears : ¬ m.Clears f := fun hclears =>
        htakes (hclears i q e hi (hqp ▸ hpid) hq he hdirty)
      refine Or.inr ⟨.error (.swap (.full c)), m.noted ev, ⟨c, rfl⟩, fun _ _ => hclears, rfl, rfl, ?_⟩
      simp only [evict, EStateM.run_bind, run_frameInfo hi, hpid, hunpinned, Bool.false_eq_true,
        if_false, EStateM.run_get, hreg, hrun]

/-! ## A frame for a page -/

/-- How the attempt to get a frame for `page` of `p` can end. -/
inductive Acquisition (m : Machine) (l : Ledger) (p : UserProcess) (page : PageNumber) :
    EStateM.Result (Stop VmError) Machine (Option FrameNumber) → Prop
  /-- Frame `f` is reserved for the page; its pin is loose. -/
  | granted {f : FrameNumber} {m' : Machine} (sound : m'.Sound { l with loose := f :: l.loose })
      (keeps : Keeps m m' l.pinned) (orderly : Orderly m m' l.processes none)
      (absent : ∀ p page e, m.Absent p page e → m'.Absent p page e)
      (reserved : m.Reserved m' p page f)
      (idle : m'.idle + 1 = m.idle) (waiters : m'.waiters = m.waiters) :
      Acquisition m l p page (.ok (some f) m')
  /-- Every frame is pinned. -/
  | refused (idle : m.idle = 0) : Acquisition m l p page (.ok none m)
  /-- The eviction failed, and nothing has happened but that the clock chose a frame. -/
  | failed {stop : Stop VmError} {f : FrameNumber} {m' : Machine} (cause : EvictionStops m stop)
      (chosen : m.Chosen m' f) (clears : ∀ err, stop = .error err → ¬ m.Clears f)
      (empty : m.kernel.frames.free.stack = []) :
      Acquisition m l p page (.error stop m')

/-- **Getting a frame.** A free frame is taken first, else the frame of a victim, and none only if
every frame is pinned. -/
theorem acquireFrame_spec (h : m.Sound l) (ha : m.Absent p page e) :
    Acquisition m l p page ((acquireFrame p page).run m) := by
  cases hfree : m.kernel.frames.free.stack with
  | cons f fs =>
    have hrun : (allocate p.pid page).run m = .ok (some f) (m.handedOut p page f) :=
      run_allocate_of_cons h.pool hfree p.pid page
    simp only [acquireFrame, EStateM.run_bind, hrun, EStateM.run_pure]
    exact .granted (.handedOut h hfree ha.1 page) (.handedOut h hfree p page)
      (.handedOut h hfree ha.1 page) (fun _ _ _ ha => ha) (reserved_handedOut h hfree p page)
      (idle_handedOut h hfree p page) rfl
  | nil =>
    have hnil := run_allocate_of_nil hfree p.pid page
    cases hvictim : m.kernel.frames.selectVictim with
    | mk victim t =>
      cases victim with
      | none =>
        simp only [acquireFrame, EStateM.run_bind, hnil, run_selectVictim_none hvictim,
          EStateM.run_pure]
        refine .refused ((Directory.idle_eq_zero h.pool.size_le).mpr fun f i hi hpins => ?_)
        refine (FrameTable.selectVictim_none hvictim).2 f ⟨i, hi, fun hnone => ?_, hpins⟩
        have hmem := (h.pool.mem_stack f).mpr ⟨i, hi, hnone⟩
        rw [hfree] at hmem
        contradiction
      | some f =>
        obtain ⟨hev, -, -, hmarks⟩ := FrameTable.selectVictim_some hvictim
        obtain ⟨i, hi, howner, hpins⟩ := hmarks.evictable hev
        let m₁ := (m.withFrames t).noted (.choseVictim f i t.clock.hand)
        have hswept : m.Swept m₁ := (swept_of_selectVictim hvictim).noted _
        have hsound₁ : m₁.Sound l := h.alike hswept.alike
        have hselect : selectVictim.run m = .ok (some f) m₁ := run_selectVictim_some hvictim hi
        have hi₁ : m₁.frameInfo? f = some i := hi
        rcases run_evict hsound₁ hi₁ howner hpins with
          ⟨m₂, q, page', e', htook, hrun₂⟩ | ⟨stop, m', hcause, hclears, hkernel, htables, hrun⟩
        · have hsound₂ := htook.sound hsound₁ hi₁ hpins
          have hfree₂ : m₂.kernel.frames.free.stack = f :: t.free.stack := by
            rw [htook.frames]
            rfl
          have habsent : ∀ p page e, m.Absent p page e → m₂.Absent p page e :=
            fun _ _ _ ha => htook.absent hsound₁ (hswept.alike.absent ha)
          have hp := (habsent p page e ha).1
          have hrun : (allocate p.pid page).run m₂ = .ok (some f) (m₂.handedOut p page f) :=
            run_allocate_of_cons hsound₂.pool hfree₂ p.pid page
          have hmem := fun q (hq : m.Registered q) => h.census.mem hq
          simp only [acquireFrame, EStateM.run_bind, hnil, hselect, hrun₂, hrun]
          refine .granted (.handedOut hsound₂ hfree₂ hp page)
            (((Keeps.alike hswept.alike _).trans (htook.keeps hsound₁ hi₁ hpins)).trans
              (.handedOut hsound₂ hfree₂ p page))
            (((Orderly.alike hswept.alike _).trans (htook.orderly hsound₁) hmem).trans
              (.handedOut hsound₂ hfree₂ hp page) hmem)
            habsent ((htook.reserved hsound₂ hfree₂ hi₁ (hswept.free ▸ hfree) p page).after hswept)
            ?_ ?_
          · rw [idle_handedOut hsound₂ hfree₂, htook.idle hi₁ hpins]
            exact hswept.alike.idle h.pool
          · have hwaiters : (m₂.handedOut p page f).waiters = m₂.waiters := rfl
            rw [hwaiters, waiters, htook.frames]
            exact hswept.waiters
        · simp only [acquireFrame, EStateM.run_bind, hnil, hselect, hrun]
          have hchosen : m.Chosen m' f := by
            refine ⟨?_, ?_, htables⟩
            · rw [hkernel]
              exact hvictim
            · rw [hkernel]
              rfl
          exact .failed (hcause.of_alike hswept.alike) hchosen
            (fun err herr hf => hclears err herr (hswept.clears hf)) hfree

end Action

end DemandPaging
