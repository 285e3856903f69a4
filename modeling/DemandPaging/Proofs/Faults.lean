import DemandPaging.Image.MemoryImage
import DemandPaging.Proofs.Eviction

/-!
# Page faults on sound machines

What an attempt to get at a page can end with, and what it leaves behind: the page is pinned, the
call is queued up because no frame is without a pin, or the attempt failed. In each case the machine
is sound and every page of every process is as it was. An attempt that failed was refused before
anything happened, or it could not save a victim, or the frame that was reserved for the page is
free again (`Action.Failure`). `Action.resolve_spec` is the whole statement, and the sections before
it treat the parts of an attempt in the order in which they happen.
-/

namespace DemandPaging

open Machine

/-! ## Images -/

/-- An executable answers every request for a page with its content or with an error. This is what
the memory manager relies on, as it asks for pages in the middle of a change. -/
def Executable.Answers (image : Executable) : Prop :=
  ∀ (index k : Nat), k < wordBound → ∀ v, image.page index k ≠ .error (.violation v)

theorem Segment.length_chunk_le (s : Segment) (k : Nat) : (s.chunk k).length ≤ pageSize := by
  rw [chunk_eq_slice, Bytes.slice]
  exact List.length_take_le ..

/-- A memory image, whatever its defects, answers every request for a page. -/
theorem Image.answers (img : Image) : img.toExecutable.Answers := by
  intro index k hk v
  have hbytes : (img.loadPage index k Page.zero.bytes) ≠ .error (.violation v) := by
    have hfits : ¬ sizeBound ≤ k * pageSize := by
      simp only [wordBound, sizeBound, pageSize] at hk ⊢
      omega
    unfold loadPage
    split
    · simp
    · split
      · simp
      · unfold MemoryImage.loadPage
        split
        · simp
        · next s _ =>
          rw [if_neg hfits]
          split
          · simp
          · dsimp only
            rw [if_pos (Page.zero.length_bytes.symm ▸ s.length_chunk_le k)]
            simp
  simp only [toExecutable]
  cases hload : img.loadPage index k Page.zero.bytes with
  | ok bytes =>
    intro heq
    cases heq
  | error stop =>
    rw [hload] at hbytes
    exact fun heq => hbytes (congrArg Except.error (Except.error.inj heq))

/-- Zeroes can always be had, or the page is out of range. -/
theorem Executable.zeroes_answers (name : String) (pages : Nat) : (zeroes name pages).Answers := by
  rw [zeroes_eq]
  exact Image.answers _

theorem Layout.lt_of_sourceIn {n index : Nat} {rs : List PageRange} {start k : Nat}
    (h : Layout.sourceIn n rs start = .fromSection index k) : k ≤ n := by
  induction rs generalizing start with
  | nil => contradiction
  | cons r rs ih =>
    unfold sourceIn at h
    split at h
    · cases h
      exact Nat.sub_le ..
    · exact ih h

/-- A page that has a source can only be missing from the executable. -/
theorem UserProcess.exists_load_of_error {p : UserProcess} {page : PageNumber}
    {source : PageSource} {err : VmError} (hsource : p.layout.source? page = some source)
    (h : p.initialContent page = .error (.error err)) : ∃ e, err = .load e := by
  unfold initialContent at h
  rw [hsource] at h
  cases source with
  | zeroFill => cases h
  | fromSection index k =>
    dsimp only at h
    cases hpage : p.image.page index k with
    | ok content =>
      rw [hpage] at h
      cases h
    | error stop =>
      rw [hpage] at h
      cases stop with
      | error e =>
        cases h
        exact ⟨e, rfl⟩
      | violation v => cases h

/-- The initial content of a page is there, or an error says why not. -/
theorem UserProcess.initialContent_ne_violation {p : UserProcess} (h : p.image.Answers)
    (page : PageNumber) (v : Violation) : p.initialContent page ≠ .error (.violation v) := by
  unfold initialContent
  cases hs : p.layout.source? page with
  | none => exact fun heq => by cases heq
  | some s =>
    cases s with
    | zeroFill => exact fun heq => by cases heq
    | fromSection index k =>
      have hk : k < wordBound := by
        unfold Layout.source? at hs
        split at hs
        · rw [Option.some.injEq] at hs
          exact Nat.lt_of_le_of_lt (Layout.lt_of_sourceIn hs) page.val.toNat_lt
        · contradiction
      have hv := h index k hk
      dsimp only
      cases hp : p.image.page index k with
      | ok content => exact fun heq => by cases heq
      | error stop =>
        cases stop with
        | error e => exact fun heq => by cases heq
        | violation v' => exact absurd hp (hv v')

namespace Machine

variable {m m' m₁ : Machine} {l : Ledger} {p : UserProcess} {f : FrameNumber}
  {page : PageNumber} {e : PageEntry}

/-! ## A frame is given back -/

/-- Nothing but the bytes of one frame changed that matters to a fault. -/
structure Filled (m m' : Machine) (f : FrameNumber) : Prop where
  frames : m'.kernel.frames = m.kernel.frames
  tables : m'.tables = m.tables
  copies : ∀ key, m'.kernel.swap.copy? key = m.kernel.swap.copy? key
  bytes : ∀ g, g ≠ f → m'.kernel.memory.frames[g.toNat]? = m.kernel.memory.frames[g.toNat]?
  faults : m'.kernel.stats.faults = m.kernel.stats.faults

theorem Filled.of_alike {content : Page} (h : Alike (m.withBytes f content) m')
    (hframes : m'.kernel.frames = m.kernel.frames)
    (hfaults : m'.kernel.stats.faults = m.kernel.stats.faults) : m.Filled m' f where
  frames := hframes
  tables := h.tables
  copies := h.copies
  bytes g hg := by rw [h.memory, bytes_withBytes_of_ne content hg]
  faults := hfaults

/-- The frame `f` is free again, and the oldest waiter was woken for it. -/
structure GaveBack (m m' : Machine) (f : FrameNumber) : Prop where
  info : ∀ g, m'.frameInfo? g = if g = f then some .free else m.frameInfo? g
  stack : m'.kernel.frames.free.stack = f :: m.kernel.frames.free.stack
  waiters : m'.waiters = m.waiters.wakeOne.2
  tables : m'.tables = m.tables
  copies : ∀ key, m'.kernel.swap.copy? key = m.kernel.swap.copy? key
  bytes : ∀ g, g ≠ f → m'.kernel.memory.frames[g.toNat]? = m.kernel.memory.frames[g.toNat]?
  faults : m'.kernel.stats.faults = m.kernel.stats.faults

theorem GaveBack.after (h : m₁.GaveBack m' f) (hf : m.Filled m₁ f) : m.GaveBack m' f where
  info g := by
    rw [h.info, frameInfo?, hf.frames]
    rfl
  stack := by rw [h.stack, hf.frames]
  waiters := h.waiters.trans
    (congrArg (fun t : FrameTable ProcessId => t.waiters.wakeOne.2) hf.frames)
  tables := h.tables.trans hf.tables
  copies key := (h.copies key).trans (hf.copies key)
  bytes g hg := (h.bytes g hg).trans (hf.bytes g hg)
  faults := h.faults.trans hf.faults

/-- A frame was taken for `page` of `p` and is on top of the free list now. The page has the entry
it had, one other page at most has lost its frame, and one waiter at most was woken. -/
structure Withdrew (m m' : Machine) (p : UserProcess) (page : PageNumber) (f : FrameNumber) :
    Prop where
  entry : m'.entryOf? p page = m.entryOf? p page
  absent : (m'.table p).translate? page = none
  info : m'.frameInfo? f = some .free
  stack : m'.kernel.frames.free.stack = f :: m.kernel.frames.free.stack.tail
  others : ∀ g, g ≠ f →
    (m'.frameInfo? g).map FrameInfo.unmarked = (m.frameInfo? g).map FrameInfo.unmarked
  bytes : ∀ g, g ≠ f → m'.kernel.memory.frames[g.toNat]? = m.kernel.memory.frames[g.toNat]?
  ousted : m.Ousted m' f
  waiters : m'.waiters = m.waiters.wakeOne.2
  faults : m'.kernel.stats.faults = m.kernel.stats.faults

/-- A frame that was reserved and given back was withdrawn. -/
theorem Reserved.withdrew (hr : m.Reserved m₁ p page f) (hg : m₁.GaveBack m' f)
    (hwaiters : m₁.waiters = m.waiters) (h : m.Sound l) (ha : m.Absent p page e) :
    m.Withdrew m' p page f := by
  have housted : m.Ousted m' f := hr.ousted.before hg.tables hg.copies
  have hentry : m'.entryOf? p page = some e := housted.entryOf?_of_absent h ha
  refine ⟨hentry.trans ha.2.1.symm, ?_, (hg.info f).trans (if_pos rfl), ?_, fun g hne => ?_,
    fun g hne => ?_, housted, hwaiters ▸ hg.waiters, hg.faults.trans hr.faults⟩
  · rw [translate?_table, hentry, Option.bind_some, ha.2.2]
  · rw [hg.stack, hr.stack]
  · rw [hg.info, if_neg hne]
    exact hr.others g hne
  · rw [hg.bytes g hne, hr.memory]

end Machine

/-! ## The page is brought in -/

/-- The content of the page can be had: the store can read the page, and there is a copy or the
executable provides it. -/
structure Machine.Loadable (m : Machine) (p : UserProcess) (page : PageNumber) : Prop where
  readable : m.kernel.swap.unreadable page = false
  content : ∃ content, m.storedContent? p page = some content

/-- The page lies in the frame, by its page table and by the directory, and the frame is pinned. -/
structure Machine.Maps (m : Machine) (p : UserProcess) (page : PageNumber) (f : FrameNumber) :
    Prop where
  translated : (m.table p).translate? page = some f
  info : ∃ i, m.frameInfo? f = some i ∧ i.owner = some p.pid ∧ i.page = page ∧ i.pins ≠ 0

namespace Action

variable {m : Machine} {l : Ledger} {p : UserProcess} {f : FrameNumber}
  {i : FrameInfo ProcessId} {page : PageNumber} {e : PageEntry}

/-- A copy that is read is the one held, and nothing changes in the store but a count. -/
theorem load_page (s : Swap) (key : SwapKey) :
    (s.unreadable key.2 = true ∧ s.load key pageSize = .error (.badFrameSize pageSize)) ∨
      (s.load key pageSize = .ok (none, s) ∧ s.copy? key = none) ∨
      ∃ copy, s.load key pageSize = .ok (some copy, { s with loads := s.loads + 1 }) ∧
        s.copy? key = some copy := by
  unfold Swap.load
  split
  · next hunreadable => exact Or.inl ⟨hunreadable, rfl⟩
  · rw [if_neg (not_not_intro rfl)]
    cases hcopy : s.copy? key with
    | none => exact Or.inr (Or.inl ⟨rfl, rfl⟩)
    | some copy => exact Or.inr (Or.inr ⟨copy, rfl, rfl⟩)

/-- Why `page` of `p` cannot be brought into the frame `f`. -/
inductive Unfit (p : UserProcess) (page : PageNumber) (f : FrameNumber) : VmError → Prop
  /-- The store cannot read the page. -/
  | unreadable : Unfit p page f (.swap (.badFrameSize pageSize))
  /-- The executable does not provide the page. -/
  | unavailable {err : VmError} (content : p.initialContent page = .error (.error err)) :
      Unfit p page f err
  /-- The number of the frame is too large for an entry. -/
  | unencodable (bits : PageEntry.frameBits? f = none) :
      Unfit p page f (.pageTable (.frameTooLarge f))

/-- The bytes of a frame that exists can be set. -/
theorem run_setFrame (hf : f.toNat < m.kernel.memory.frames.size) (content : Page) :
    (onMemory (·.setFrame f content)).run m = .ok () (m.withBytes f content) :=
  run_onMemory (if_pos hf)

/-- A page of which there is no copy is filled with what the executable provides. -/
theorem run_populate_of_initialContent {s : Swap} {content : Page}
    (hf : f.toNat < m.kernel.memory.frames.size)
    (hload : m.kernel.swap.load (p.pid, page) pageSize = .ok (none, s))
    (hinit : p.initialContent page = .ok content) :
    (populate p page f).run m = .ok () (m.withBytes f content) := by
  simp only [populate, EStateM.run_bind, EStateM.run_get, hload, hinit, run_setFrame hf]

/-- Filling a frame puts the stored content there. It fails only if that cannot be had, without a
change, and with a violation only if the executable does. -/
theorem run_populate (p : UserProcess) (page : PageNumber) {old : Page}
    (hf : m.kernel.memory.frames[f.toNat]? = some old) :
    (∃ content m', m.storedContent? p page = some content ∧ Alike (m.withBytes f content) m' ∧
      m'.kernel.frames = m.kernel.frames ∧ m'.kernel.stats.faults = m.kernel.stats.faults ∧
      (populate p page f).run m = .ok () m') ∨
    (∃ err, Unfit p page f err ∧ ¬ m.Loadable p page ∧
      (populate p page f).run m = .error (.error err) m) ∨
    ∃ v, p.initialContent page = .error (.violation v) ∧ ¬ m.Loadable p page ∧
      (populate p page f).run m = .error (.violation v) m := by
  have hlt := (Array.getElem?_eq_some_iff.mp hf).1
  rcases load_page m.kernel.swap (p.pid, page) with ⟨hunreadable, hload⟩ | ⟨hload, hcopy⟩ |
    ⟨copy, hload, hcopy⟩
  · refine Or.inr (Or.inl ⟨_, .unreadable, fun h => ?_, ?_⟩)
    · have hreadable := h.readable
      rw [hunreadable] at hreadable
      contradiction
    · simp only [populate, EStateM.run_bind, EStateM.run_get, hload, run_fail]
  · cases hinit : p.initialContent page with
    | error stop =>
      have hrun : (populate p page f).run m = .error stop m := by
        simp only [populate, EStateM.run_bind, EStateM.run_get, hload, hinit]
        rfl
      have hnone : ¬ m.Loadable p page := by
        rintro ⟨-, content, hstored⟩
        rw [storedContent?, hcopy, hinit] at hstored
        contradiction
      cases stop with
      | error err => exact Or.inr (Or.inl ⟨err, .unavailable hinit, hnone, hrun⟩)
      | violation v => exact Or.inr (Or.inr ⟨v, rfl, hnone, hrun⟩)
    | ok content =>
      refine Or.inl ⟨content, m.withBytes f content, ?_, .refl _, rfl, rfl,
        run_populate_of_initialContent hlt hload hinit⟩
      rw [storedContent?, hcopy, hinit]
      rfl
  · have hread : f.toNat < (m.withSwap
        { m.kernel.swap with loads := m.kernel.swap.loads + 1 }).kernel.memory.frames.size := hlt
    refine Or.inl ⟨copy, (((m.withSwap
      { m.kernel.swap with loads := m.kernel.swap.loads + 1 }).withBytes f copy).counted
      fun s => { s with swapReads := s.swapReads + 1 }).noted (.loadedFromSwap p.pid page),
      ?_, ?_, rfl, rfl, ?_⟩
    · rw [storedContent?, hcopy, Option.some_or]
    · exact ⟨rfl, ⟨rfl, fun _ => rfl⟩, rfl, rfl, fun _ => rfl, rfl, rfl⟩
    · simp only [populate, EStateM.run_bind, EStateM.run_get, hload, run_setSwap, run_count,
        run_note, run_setFrame hread]

/-- A page that is not resident is mapped to the frame, if its number fits an entry. -/
theorem run_install_of_bits (ha : m.Absent p page e) {v : BitVec 24}
    (hv : PageEntry.frameBits? f = some v) (referenced : Bool) :
    (changeTable p (·.install page f referenced)).run m =
      .ok () (m.withEntry p page (.resident v e.readOnly referenced)) := by
  obtain ⟨-, he, habsent⟩ := ha
  have he' : (m.table p).get? page = some e := he
  have hvalid : e.valid = false := by
    unfold PageEntry.frame? at habsent
    split at habsent
    · contradiction
    · next hv => exact Bool.not_eq_true _ ▸ hv
  refine run_changeTable ?_
  simp only [PageTable.install, hv, he', hvalid, Bool.false_eq_true, if_false]

/-- A page that is not resident is mapped to the frame, unless its number is too large for an
entry. -/
theorem run_install (ha : m.Absent p page e) (f : FrameNumber) (referenced : Bool) :
    (∃ v, PageEntry.frameBits? f = some v ∧
      (changeTable p (·.install page f referenced)).run m =
        .ok () (m.withEntry p page (.resident v e.readOnly referenced))) ∨
    ∃ err, Unfit p page f err ∧
      (changeTable p (·.install page f referenced)).run m = .error (.error err) m := by
  cases hv : PageEntry.frameBits? f with
  | none =>
    refine Or.inr ⟨_, .unencodable hv, run_changeTable_error (e := .frameTooLarge f) ?_⟩
    simp only [PageTable.install, hv]
  | some v => exact Or.inl ⟨v, rfl, run_install_of_bits ha hv referenced⟩

/-- A loose frame goes back to the free list, and wakes a waiter. -/
theorem run_giveBack {loose : List FrameNumber} (h : m.Sound l) (hl : l.loose = f :: loose)
    (hp : m.Registered p) (hi : m.frameInfo? f = some i) (hof : i.owner = some p.pid)
    (hpins : i.pins = 1) (err : VmError) :
    ∃ m', m'.Sound { l with loose } ∧ Keeps m m' l.pinned ∧ Orderly m m' l.processes none ∧
      m'.idle = m.idle + 1 ∧ m.GaveBack m' f ∧
      (do unpin f; release f; fail err : Action Unit).run m = .error (.error err) m' := by
  have howner := h.owner_of_pinned hi (by omega)
  have hdrop := FrameTable.info?_dropPin hi f
  rw [if_pos rfl] at hdrop
  have hrelease := run_release_of_unpinned (m := m.withFrames (m.kernel.frames.dropPin f i))
    (h.pool.dropPin hi howner) hdrop howner (by rw [hpins])
  have hwaiters := FrameTable.waiters_dropPin m.kernel.frames f i
  rw [if_neg (by omega)] at hwaiters
  have hfree : (m.kernel.frames.dropPin f i).free = m.kernel.frames.free := by
    unfold FrameTable.dropPin
    split <;> rfl
  have hgave : m.GaveBack ((m.withFrames ((m.kernel.frames.dropPin f i).takeBack f)).noted
      (.released f)) f :=
    ⟨info?_dropPin_takeBack hi, congrArg (fun free : FreeList => f :: free.stack) hfree, hwaiters,
      rfl, fun _ => rfl, fun _ _ => rfl, rfl⟩
  refine ⟨_, (h.giveBack hl hi hpins).alike (.noted _ (.released f)),
    (Keeps.giveBack h hl hi hpins).trans (.alike (.noted _ (.released f)) _),
    (Orderly.giveBack hi hof hp _).trans (.alike (.noted _ (.released f)) _)
      fun _ hq => h.census.mem hq, ?_, hgave, ?_⟩
  · have hidle := FrameTable.idle_dropPin (t := m.kernel.frames) hi (by omega)
    rw [if_pos hpins] at hidle
    exact (FrameTable.idle_takeBack hdrop (by rw [hpins])).trans hidle
  · simp only [EStateM.run_bind, run_unpin hi (by omega), hrelease, run_fail]
    rfl

/-- How bringing `page` of `p` into the reserved frame `f` can end. -/
inductive Arrival (m : Machine) (l : Ledger) (p : UserProcess) (page : PageNumber)
    (f : FrameNumber) : EStateM.Result (Stop VmError) Machine Unit → Prop
  /-- The page lies in the frame, pinned for the caller. -/
  | installed {m' : Machine} (sound : m'.Sound { l with pinned := f :: l.pinned })
      (keeps : Keeps m m' l.pinned) (orderly : Orderly m m' l.processes none)
      (info : ∃ i, m'.frameInfo? f = some i ∧ i.owner = some p.pid ∧ i.page = page)
      (idle : m'.idle = m.idle) (waiters : m'.waiters = m.waiters) :
      Arrival m l p page f (.ok () m')
  /-- The frame is free again. -/
  | undone {err : VmError} {m' : Machine} (cause : Unfit p page f err) (sound : m'.Sound l)
      (keeps : Keeps m m' l.pinned) (orderly : Orderly m m' l.processes none)
      (idle : m'.idle = m.idle + 1) (gave : m.GaveBack m' f) :
      Arrival m l p page f (.error (.error err) m')
  /-- The executable violated an assertion, and the frame stays reserved. -/
  | stuck {v : Violation} {m' : Machine} (image : p.initialContent page = .error (.violation v))
      (sound : m'.Sound { l with loose := f :: l.loose }) (keeps : Keeps m m' l.pinned)
      (orderly : Orderly m m' l.processes none)
      (idle : m'.idle = m.idle) (waiters : m'.waiters = m.waiters) :
      Arrival m l p page f (.error (.violation v) m')

/-- The frame may be filled before, if that is no change. -/
theorem Arrival.after {m₁ : Machine} {r : EStateM.Result (Stop VmError) Machine Unit}
    (h : Arrival m₁ l p page f r) (hm : m.Sound { l with loose := f :: l.loose })
    (hkeeps : Keeps m m₁ l.pinned) (horderly : Orderly m m₁ l.processes none)
    (hfilled : m.Filled m₁ f) : Arrival m l p page f r := by
  have hmem := fun q (hq : m.Registered q) => hm.census.mem hq
  have hidle : m₁.idle = m.idle := by rw [Machine.idle, hfilled.frames]
  have hwaiters : m₁.waiters = m.waiters := by rw [Machine.waiters, hfilled.frames]
  cases h with
  | installed sound keeps orderly info idle waiters =>
    exact .installed sound (hkeeps.trans keeps) (horderly.trans orderly hmem) info
      (idle.trans hidle) (waiters.trans hwaiters)
  | undone cause sound keeps orderly idle gave =>
    exact .undone cause sound (hkeeps.trans keeps) (horderly.trans orderly hmem) (hidle ▸ idle)
      (gave.after hfilled)
  | stuck image sound keeps orderly idle waiters =>
    exact .stuck image sound (hkeeps.trans keeps) (horderly.trans orderly hmem) (idle.trans hidle)
      (waiters.trans hwaiters)

section Arrival

variable (h : m.Sound { l with loose := f :: l.loose }) (ha : m.Absent p page e)
  (hi : m.frameInfo? f = some i) (howner : i.owner = some p.pid) (hpage : i.page = page)
  (hpins : i.pins = 1)
include h ha hi howner hpage hpins

/-- The second half: a frame that was filled is mapped. -/
theorem finish_spec (hbytes : m.kernel.memory.frames[f.toNat]? = m.storedContent? p page)
    (referenced : Bool) :
    Arrival m l p page f ((do
      orGiveBack f (changeTable p (·.install page f referenced))
      setReferenced f referenced
      count fun s => { s with faults := s.faults + 1 }
      note (.faultReady p.pid page f) : Action Unit).run m) := by
  have hmem := fun q (hq : m.Registered q) => h.census.mem hq
  rcases run_install ha f referenced with ⟨v, hv, hrun⟩ | ⟨err, hcause, hrun⟩
  · have hmapped := PageEntry.frame?_resident hv e.readOnly referenced
    let m₁ := m.withEntry p page (.resident v e.readOnly referenced)
    replace hrun : (changeTable p (·.install page f referenced)).run m = .ok () m₁ := hrun
    have hi₁ : m₁.frameInfo? f = some i := hi
    have hsound : m₁.Sound { l with pinned := f :: l.pinned } :=
      h.install rfl ha.1 ha.2.1 ha.2.2 hi hpins hbytes hmapped howner hpage
    have hkeeps : Keeps m m₁ l.pinned := .install h ha.1 ha.2.1 ha.2.2 hbytes hmapped
    have horderly : Orderly m m₁ l.processes none := by
      refine .withEntry h.census (h.census.mem ha.1) ha.2.1 (PageEntry.readOnly_resident ..)
        (fun hd => ?_) (Or.inl ?_)
      · rw [PageEntry.dirty_resident] at hd
        contradiction
      · have hreg : m.process? p.pid = some p := ha.1
        rw [hreg]
        exact Option.some_ne_none p
    have hmark := Alike.marked hi₁ referenced
    have hend := fun (m' : Machine) c ev => (Alike.counted m' c).trans (.noted _ ev)
    obtain ⟨j, hj, hjowner, hjpage, -⟩ := hmark.frameInfo? hi₁
    simp only [EStateM.run_bind, run_orGiveBack, hrun, run_setReferenced hi₁, run_count, run_note]
    exact .installed ((hsound.alike hmark).alike (hend _ _ _))
      ((hkeeps.trans (.alike hmark _)).trans (.alike (hend _ _ _) _))
      ((horderly.trans (.alike hmark _) hmem).trans (.alike (hend _ _ _) _) hmem)
      ⟨j, hj, hjowner.trans howner, hjpage.trans hpage⟩ (hmark.idle hsound.pool) rfl
  · obtain ⟨m', hsound, hkeeps, horderly, hidle, hgave, hback⟩ :=
      run_giveBack h rfl ha.1 hi howner hpins err
    simp only [EStateM.run_bind, run_orGiveBack, hrun, hback]
    exact .undone hcause hsound hkeeps horderly hidle hgave

/-- **Bringing a page in.** The page is installed, or the frame is given back. -/
theorem bringIn_spec : Arrival m l p page f ((bringIn p page f).run m) := by
  have hmem := fun q (hq : m.Registered q) => h.census.mem hq
  obtain ⟨old, hold⟩ := h.exists_bytes hi
  let m₀ := m.noted (.faultPopulate p.pid page f)
  have hm₀ : Alike m m₀ := .noted m _
  have hold₀ : m₀.kernel.memory.frames[f.toNat]? = some old := hold
  have hsound₀ := h.alike hm₀
  have hnote : (note (.faultPopulate p.pid page f)).run m = .ok () m₀ := rfl
  rcases run_populate p page hold₀ with
    ⟨content, m₁, hstored, halike, hframes, hfaults, hrun⟩ | ⟨err, hcause, -, hrun⟩ |
    ⟨v, hv, -, hrun⟩
  · let m₂ := m₁.noted (.faultInstall p.pid page)
    have hm₂ : Alike (m₀.withBytes f content) m₂ := halike.trans (.noted m₁ _)
    have hnote₂ : (note (.faultInstall p.pid page)).run m₁ = .ok () m₂ := rfl
    have hframes₂ : m₂.kernel.frames = m.kernel.frames := hframes
    have hsound₂ := (hsound₀.fill rfl content).alike hm₂
    have hkeeps₂ : Keeps m m₂ l.pinned :=
      ((Keeps.alike hm₀ _).trans (.fill hsound₀ rfl content)).trans (.alike hm₂ _)
    have horderly₂ : Orderly m m₂ l.processes none :=
      ((Orderly.alike hm₀ _).trans (.withBytes m₀ f content _) hmem).trans (.alike hm₂ _) hmem
    have hfilled : m₀.Filled m₂ f := .of_alike hm₂ hframes₂ hfaults
    have hbytes₂ : m₂.kernel.memory.frames[f.toNat]? = m₂.storedContent? p page := by
      rw [hm₂.memory, bytes_withBytes_self hold₀, hm₂.storedContent?]
      exact hstored.symm
    have hi₂ : m₂.frameInfo? f = some i := by
      rw [frameInfo?, hframes₂]
      exact hi
    have hrest := finish_spec hsound₂ (hm₂.absent ha) hi₂ howner hpage hpins hbytes₂
      m.kernel.config.referenceOnInstall
    have hbring : (bringIn p page f).run m = (do
        orGiveBack f (changeTable p (·.install page f m.kernel.config.referenceOnInstall))
        setReferenced f m.kernel.config.referenceOnInstall
        count fun s => { s with faults := s.faults + 1 }
        note (.faultReady p.pid page f) : Action Unit).run m₂ := by
      simp only [bringIn, EStateM.run_bind, EStateM.run_get, hnote,
        run_orGiveBack f (populate p page f), hrun, hnote₂]
    rw [hbring]
    exact hrest.after h hkeeps₂ horderly₂
      ⟨hfilled.frames, hfilled.tables, hfilled.copies, hfilled.bytes, hfilled.faults⟩
  · obtain ⟨m', hsound, hkeeps, horderly, hidle, hgave, hback⟩ :=
      run_giveBack hsound₀ rfl ha.1 hi howner hpins err
    simp only [bringIn, EStateM.run_bind, EStateM.run_get, hnote, run_orGiveBack, hrun, hback]
    exact .undone hcause hsound ((Keeps.alike hm₀ _).trans hkeeps)
      ((Orderly.alike hm₀ _).trans horderly hmem) hidle
      (hgave.after ⟨rfl, rfl, fun _ => rfl, fun _ _ => rfl, rfl⟩)
  · simp only [bringIn, EStateM.run_bind, EStateM.run_get, hnote, run_orGiveBack, hrun]
    exact .stuck hv hsound₀ (.alike hm₀ _) (.alike hm₀ _) rfl rfl

end Arrival

/-! ## An attempt -/

/-- The process may not access the page. -/
def Denied (p : UserProcess) (page : PageNumber) (err : VmError) : Prop :=
  err = .processExited p.pid ∨ err = .segmentationFault p.pid page ∨
    err = .readOnlyViolation p.pid page

/-- How an attempt to get at `page` of `p` can fail, and what it leaves behind. -/
inductive Failure (m : Machine) (p : UserProcess) (page : PageNumber) : VmError → Machine → Prop
  /-- The access was refused, and nothing has happened. -/
  | denied {err : VmError} (cause : Denied p page err) : Failure m p page err m
  /-- No victim could be saved, so each keeps its frame. -/
  | unsaved {c : Nat} {m' : Machine} (swept : m.Swept m') : Failure m p page (.swap (.full c)) m'
  /-- The page could not be brought in, and the frame is free again. -/
  | withdrawn {err : VmError} {e : PageEntry} {f : FrameNumber} {m' : Machine}
      (absent : m.Absent p page e) (cause : Unfit p page f err)
      (withdrew : m.Withdrew m' p page f) : Failure m p page err m'

/-- Why an attempt to get at `page` of `p` violates an assertion. -/
inductive Blame (m : Machine) (p : UserProcess) (page : PageNumber) : Violation → Prop
  /-- The clock chose a frame of a process that is not registered. -/
  | orphan {f : FrameNumber} {pid : ProcessId} (orphaned : m.Orphaned f pid) :
      Blame m p page (.ownerUnregistered f pid)
  /-- The executable does. -/
  | image {v : Violation} (content : p.initialContent page = .error (.violation v)) :
      Blame m p page v
  /-- The page is resident, and its frame has as many pins as can be counted. -/
  | pins {e : PageEntry} {f : FrameNumber} {i : FrameInfo ProcessId}
      (entry : m.entryOf? p page = some e) (frame : e.frame? = some f)
      (info : m.frameInfo? f = some i) (full : FrameInfo.maxPins ≤ i.pins) :
      Blame m p page .overflow

/-- How an attempt to get at `page` of `p` can end. -/
inductive Resolution (m : Machine) (l : Ledger) (p : UserProcess) (page : PageNumber) :
    EStateM.Result (Stop VmError) Machine Grant → Prop
  /-- The page lies in frame `f`, with one pin more for the caller. A frame that was pinned already
  leaves the number of frames without a pin as it is. -/
  | pinned {f : FrameNumber} {m' : Machine} (registered : m.Registered p)
      (sound : m'.Sound { l with pinned := f :: l.pinned }) (keeps : Keeps m m' l.pinned)
      (info : ∃ i, m'.frameInfo? f = some i ∧ i.owner = some p.pid ∧ i.page = page)
      (idle_le : m'.idle ≤ m.idle) (le_idle : m.idle ≤ m'.idle + 1)
      (waiters : m'.waiters = m.waiters) (orderly : Orderly m m' l.processes none) :
      Resolution m l p page (.ok (.pinned f) m')
  /-- Every frame is pinned, and the caller is the last in the queue. -/
  | queued {m' : Machine} (idle : m.idle = 0) (alike : Alike m m')
      (waiters : m'.waiters = m.waiters.addParker.enqueue m.waiters.parkers.size) :
      Resolution m l p page (.ok (.queued m.waiters.parkers.size) m')
  /-- The attempt failed, and at most one waiter was woken for a frame that was given back. -/
  | failed {err : VmError} {m' : Machine} (sound : m'.Sound l) (keeps : Keeps m m' l.pinned)
      (idle : m'.idle = m.idle)
      (waiters : m'.waiters = m.waiters ∨ m'.waiters = m.waiters.wakeOne.2)
      (orderly : Orderly m m' l.processes none) (failure : Failure m p page err m') :
      Resolution m l p page (.error (.error err) m')
  /-- An assertion does not hold. A frame may stay reserved, if the executable is to blame. -/
  | stuck {v : Violation} {m' : Machine} {loose : List FrameNumber}
      (image : p.image.Answers → loose = l.loose) (sound : m'.Sound { l with loose })
      (keeps : Keeps m m' l.pinned) (idle : m'.idle ≤ m.idle) (waiters : m'.waiters = m.waiters)
      (orderly : Orderly m m' l.processes none) (blame : Blame m p page v) :
      Resolution m l p page (.error (.violation v) m')

/-- A page that an attempt has got lies in its frame, and the frame is pinned. -/
theorem Resolution.maps {m₁ : Machine} (h : Resolution m l p page (.ok (.pinned f) m₁)) :
    m₁.Maps p page f := by
  cases h with
  | pinned registered sound keeps info =>
    obtain ⟨i, hi, howner, hpage⟩ := info
    have hreg : m₁.Registered p := (keeps.registry p.pid).trans registered
    have hloose : f ∉ l.loose := fun hf => (sound.agreement.unmapped f hf).1 List.mem_cons_self
    have hmapped := sound.agreement.recorded f i p hi howner hreg hloose
    rw [hpage] at hmapped
    exact ⟨hmapped, i, hi, howner, hpage, fun hpins =>
      (sound.not_pinned hi hpins).1 List.mem_cons_self⟩

/-- An attempt that may not access the page ends at once. -/
theorem run_permittedEntry (p : UserProcess) (page : PageNumber) (kind : AccessKind)
    (hcensus : m.Census l.processes) (hp : p ∈ l.processes) :
    (∃ err, Denied p page err ∧ (permittedEntry p page kind).run m = .error (.error err) m) ∨
    ∃ e, m.Registered p ∧ m.entryOf? p page = some e ∧
      (permittedEntry p page kind).run m = .ok e m := by
  by_cases hreg : m.kernel.registry.contains p.pid = true
  · cases he : m.entryOf? p page with
    | none =>
      refine Or.inl ⟨.segmentationFault p.pid page, Or.inr (Or.inl rfl), ?_⟩
      simp only [permittedEntry, EStateM.run_bind, EStateM.run_get, hreg, if_true, he, run_fail]
    | some e =>
      by_cases hro : (kind.isWrite && e.readOnly) = true
      · refine Or.inl ⟨.readOnlyViolation p.pid page, Or.inr (Or.inr rfl), ?_⟩
        simp only [permittedEntry, EStateM.run_bind, EStateM.run_get, hreg, if_true, he, hro,
          run_fail]
      · refine Or.inr ⟨e, hcensus.registered_of_contains hp hreg, rfl, ?_⟩
        simp only [permittedEntry, EStateM.run_bind, EStateM.run_get, hreg, if_true, he, hro,
          Bool.false_eq_true, if_false, EStateM.run_pure]
  · refine Or.inl ⟨.processExited p.pid, Or.inl rfl, ?_⟩
    simp only [permittedEntry, EStateM.run_bind, EStateM.run_get, hreg, Bool.false_eq_true,
      if_false, run_fail]

/-- A page that is resident gets another pin. -/
theorem run_hit (h : m.Sound l) (hp : m.Registered p) (he : m.entryOf? p page = some e)
    (hf : e.frame? = some f) :
    Resolution m l p page
      ((do pin f; setReferenced f true; return .pinned f : Action Grant).run m) := by
  obtain ⟨i, hi, howner, hpage⟩ := h.info_of_entry hp he hf
  have howned : i.owner ≠ none := howner ▸ Option.some_ne_none _
  have hloose : f ∉ l.loose := by
    intro hmem
    refine (h.agreement.unmapped f hmem).2 p page hp ?_
    rw [translate?_table, he, Option.bind_some, hf]
  by_cases hpins : i.pins < FrameInfo.maxPins
  · let m₁ := m.withFrames (m.kernel.frames.withInfo f { i with pins := i.pins + 1 })
    have hrun : (pin f).run m = .ok () m₁ := run_pin hi howned hpins
    have hi₁ : m₁.frameInfo? f = some { i with pins := i.pins + 1 } :=
      (FrameTable.info?_withInfo hi _ f).trans (if_pos rfl)
    have hmark := Alike.marked hi₁ true
    have hsound : m₁.Sound { l with pinned := f :: l.pinned } := h.addPin hi howned hloose
    obtain ⟨j, hj, hjowner, hjpage, -⟩ := hmark.frameInfo? hi₁
    have hidle : m₁.idle + (if i.pins = 0 then 1 else 0) = m.idle := FrameTable.idle_addPin hi
    have hidle' := hmark.idle hsound.pool
    simp only [EStateM.run_bind, hrun, run_setReferenced hi₁, EStateM.run_pure]
    refine .pinned hp (hsound.alike hmark) ((Keeps.addPin hi _).trans (.alike hmark _))
      ⟨j, hj, hjowner.trans howner, hjpage.trans hpage⟩ ?_ ?_ rfl
      ((Orderly.addPin hi _).trans (.alike hmark _) fun _ hq => h.census.mem hq)
    · rw [hidle', ← hidle]
      exact Nat.le_add_right ..
    · rw [hidle', ← hidle]
      split <;> omega
  · have hrun := run_pin_overflow hi howned (Nat.not_lt.mp hpins)
    simp only [EStateM.run_bind, hrun]
    exact .stuck (fun _ => rfl) h (.refl m _) (Nat.le_refl _) rfl (.refl m _)
      (.pins he hf hi (Nat.not_lt.mp hpins))

/-- A call that queues up gets the next ticket. -/
theorem run_queueUp (m : Machine) (p : UserProcess) (page : PageNumber) :
    (queueUp p page).run m = .ok m.waiters.parkers.size
      (((m.withFrames m.kernel.frames.wait.2).counted
        fun s => { s with blocks := s.blocks + 1 }).noted (.waiting p.pid page)) := by
  have hwait := run_onFrames (m := m) (f := fun t => .ok t.wait)
    (a := m.waiters.parkers.size) (t := m.kernel.frames.wait.2) rfl
  simp only [queueUp, EStateM.run_bind, hwait, run_count, run_note, EStateM.run_pure]

/-- A page is brought into the frame that was reserved for it, or the frame is given back. -/
theorem run_reserved (h : m.Sound l) (ha : m.Absent p page e) {m₁ : Machine}
    (hsound : m₁.Sound { l with loose := f :: l.loose }) (hkeeps : Keeps m m₁ l.pinned)
    (horderly : Orderly m m₁ l.processes none) (ha₁ : m₁.Absent p page e)
    (hreserved : m.Reserved m₁ p page f) (hidle : m₁.idle + 1 = m.idle)
    (hwaiters : m₁.waiters = m.waiters) :
    Resolution m l p page ((do bringIn p page f; return .pinned f : Action Grant).run m₁) := by
  have hmem := fun q (hq : m.Registered q) => h.census.mem hq
  obtain ⟨i, hi, howner, hpage, hpins⟩ := hreserved.info
  have harrive := bringIn_spec hsound ha₁ hi howner hpage hpins
  cases hbring : (bringIn p page f).run m₁ with
  | ok _ m' =>
    rw [hbring] at harrive
    simp only [EStateM.run_bind, hbring, EStateM.run_pure]
    cases harrive with
    | installed sound keeps orderly info idle waiters =>
      exact .pinned ha.1 sound (hkeeps.trans keeps) info (by omega) (by omega)
        (waiters.trans hwaiters) (horderly.trans orderly hmem)
  | error stop m' =>
    rw [hbring] at harrive
    simp only [EStateM.run_bind, hbring]
    cases harrive with
    | undone cause sound keeps orderly idle gave =>
      have hwithdrew : m.Withdrew m' p page f := hreserved.withdrew gave hwaiters h ha
      exact .failed sound (hkeeps.trans keeps) (by omega) (Or.inr hwithdrew.waiters)
        (horderly.trans orderly hmem) (.withdrawn ha cause hwithdrew)
    | stuck image sound keeps orderly idle waiters =>
      refine .stuck (fun hanswers => ?_) sound (hkeeps.trans keeps) (by omega)
        (waiters.trans hwaiters) (horderly.trans orderly hmem) (.image image)
      exact absurd image (p.initialContent_ne_violation hanswers page _)

/-- A page that is not resident is brought in, or the call queues up. -/
theorem serveMiss_spec (h : m.Sound l) (ha : m.Absent p page e) :
    Resolution m l p page ((serveMiss p page).run m) := by
  simp only [serveMiss, EStateM.run_bind, run_note]
  set m₀ := (m.noted (.faultMiss p.pid page)).noted (.faultAcquire p.pid page)
  have hm₀ : Alike m m₀ := (Alike.noted m _).trans (.noted _ _)
  have hswept₀ : m.Swept m₀ := ((Swept.refl m).noted _).noted _
  have hmem := fun q (hq : m.Registered q) => h.census.mem hq
  have hacquire := acquireFrame_spec (h.alike hm₀) (hm₀.absent ha)
  cases hrun : (acquireFrame p page).run m₀ with
  | error stop m' =>
    rw [hrun] at hacquire
    cases hacquire with
    | failed cause chosen =>
      have hswept : m.Swept m' := hswept₀.trans chosen.swept
      have hsound := h.alike hswept.alike
      have hkeeps : Keeps m m' l.pinned := .alike hswept.alike _
      have horderly : Orderly m m' l.processes none := .alike hswept.alike _
      have hidle := hswept.alike.idle h.pool
      cases stop with
      | error err =>
        obtain ⟨c, rfl⟩ := cause
        exact .failed hsound hkeeps hidle (Or.inl hswept.waiters) horderly (.unsaved hswept)
      | violation v =>
        obtain ⟨f, pid, horphaned, -, rfl⟩ := cause.of_alike hm₀
        exact .stuck (fun _ => rfl) hsound hkeeps (Nat.le_of_eq hidle) hswept.waiters horderly
          (.orphan horphaned)
  | ok result m₁ =>
    rw [hrun] at hacquire
    cases hacquire with
    | refused idle =>
      simp only [EStateM.run_bind, run_queueUp, EStateM.run_pure]
      exact .queued idle ⟨rfl, ⟨rfl, fun _ => rfl⟩, rfl, rfl, fun _ => rfl, rfl, rfl⟩ rfl
    | granted sound keeps orderly absent reserved idle waiters =>
      exact run_reserved h ha sound ((Keeps.alike hm₀ _).trans keeps)
        ((Orderly.alike hm₀ _).trans orderly hmem) (absent _ _ _ (hm₀.absent ha))
        (reserved.after hswept₀) idle waiters

/-- **What an attempt ends with.** -/
theorem resolve_spec (h : m.Sound l) (hp : p ∈ l.processes) (page : PageNumber)
    (kind : AccessKind) : Resolution m l p page ((resolve p page kind).run m) := by
  rcases run_permittedEntry p page kind h.census hp with
    ⟨err, hcause, hrun⟩ | ⟨e, hreg, he, hrun⟩
  · simp only [resolve, EStateM.run_bind, hrun]
    exact .failed h (.refl m _) rfl (Or.inl rfl) (.refl m _) (.denied hcause)
  · simp only [resolve, EStateM.run_bind, hrun]
    cases hf : e.frame? with
    | none => exact serveMiss_spec h ⟨hreg, he, hf⟩
    | some f => exact run_hit h hreg he hf

end Action

end DemandPaging
