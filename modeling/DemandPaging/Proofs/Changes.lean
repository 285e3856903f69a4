import DemandPaging.Proofs.Soundness

/-!
# Changes of sound machines

A fault, a copy and a teardown are made of a few changes: a frame gets a pin or loses one, is handed
out, filled, installed, taken from its owner or given back, and a process is registered or removed.
Each change is sound on its own, with the ledger brought up to date, and all but a write keep what
processes find in their pages.
-/

namespace DemandPaging

namespace Machine

variable {m : Machine} {l : Ledger} {p q : UserProcess} {f : FrameNumber}
  {i : FrameInfo ProcessId} {page : PageNumber} {e : PageEntry}

/-! ## One entry of a page table -/

theorem translate?_table (m : Machine) (p : UserProcess) (page : PageNumber) :
    (m.table p).translate? page = (m.entryOf? p page).bind PageEntry.frame? := rfl

/-- The machine with another entry for one page of `q`. -/
def withEntry (m : Machine) (q : UserProcess) (page : PageNumber) (e : PageEntry) : Machine :=
  m.withTable q ((m.table q).setEntry page e)

@[simp] theorem kernel_withEntry (m : Machine) (q : UserProcess) (page : PageNumber)
    (e : PageEntry) : (m.withEntry q page e).kernel = m.kernel := rfl

section Entry

variable {ps : List UserProcess} {e' : PageEntry} {page' : PageNumber}

/-- The census does not look into page tables. -/
theorem Census.withEntry (hc : m.Census ps) : (m.withEntry q page e').Census ps :=
  hc.congr rfl rfl (sizes_withTable (PageTable.size_setEntry ..))

theorem entryOf?_withEntry_self (hc : m.Census ps) (hq : q ∈ ps) (he : m.entryOf? q page = some e) :
    (m.withEntry q page e').entryOf? q page = some e' := by
  have he' : (m.table q).get? page = some e := he
  rw [entryOf?, withEntry, table_withTable_self hc hq, PageTable.get?_setEntry, if_pos rfl, he',
    Option.map_some]

theorem entryOf?_withEntry_of_ne (hc : m.Census ps) (hq : q ∈ ps) (hp : p ∈ ps)
    (hne : p ≠ q ∨ page' ≠ page) :
    (m.withEntry q page e').entryOf? p page' = m.entryOf? p page' := by
  by_cases hpq : p = q
  · subst hpq
    have hpage := hne.resolve_left (not_not_intro rfl)
    rw [entryOf?, withEntry, table_withTable_self hc hq, PageTable.get?_setEntry, if_neg hpage]
    rfl
  · rw [entryOf?, withEntry, table_withTable_of_ne hc hq hp hpq]
    rfl

variable (e' page') in
/-- The two pages are one, or the change of one does not show in the other. -/
theorem entryOf?_withEntry (hc : m.Census ps) (hq : q ∈ ps) (hp : p ∈ ps)
    (he : m.entryOf? q page = some e) :
    (p = q ∧ page' = page ∧ (m.withEntry q page e').entryOf? p page' = some e') ∨
      ((p.pid, page') ≠ (q.pid, page) ∧
        (m.withEntry q page e').entryOf? p page' = m.entryOf? p page') := by
  by_cases hsame : p = q ∧ page' = page
  · obtain ⟨rfl, rfl⟩ := hsame
    exact Or.inl ⟨rfl, rfl, entryOf?_withEntry_self hc hq he⟩
  · refine Or.inr ⟨?_, entryOf?_withEntry_of_ne hc hq hp (not_and_or.mp hsame)⟩
    intro heq
    exact hsame ⟨hc.eq_of_pid hp hq (Prod.ext_iff.mp heq).1, (Prod.ext_iff.mp heq).2⟩

end Entry

/-! ## The bytes of one frame -/

/-- The machine with other bytes in the frame `f`. -/
def withBytes (m : Machine) (f : FrameNumber) (content : Page) : Machine :=
  m.withMemory ⟨m.kernel.memory.frames.setIfInBounds f.toNat content⟩

theorem bytes_withBytes_self {old : Page} (h : m.kernel.memory.frames[f.toNat]? = some old)
    (content : Page) :
    (m.withBytes f content).kernel.memory.frames[f.toNat]? = some content :=
  Array.getElem?_setIfInBounds_self_of_lt (Array.getElem?_eq_some_iff.mp h).1

theorem bytes_withBytes_of_ne (content : Page) {g : FrameNumber} (hg : g ≠ f) :
    (m.withBytes f content).kernel.memory.frames[g.toNat]? = m.kernel.memory.frames[g.toNat]? :=
  Array.getElem?_setIfInBounds_ne fun hn => hg (FrameNumber.toNat_inj.mp hn).symm

/-- A page that does not lie in the frame has the same content. -/
theorem content?_withBytes_of_ne (content : Page) (h : (m.table p).translate? page ≠ some f) :
    (m.withBytes f content).content? p page = m.content? p page := by
  rw [translate?_table] at h
  cases he : m.entryOf? p page with
  | none =>
    have he' : (m.withBytes f content).entryOf? p page = none := he
    rw [content?_of_none he, content?_of_none he']
  | some e =>
    have he' : (m.withBytes f content).entryOf? p page = some e := he
    cases hg : e.frame? with
    | none =>
      rw [content?_of_absent he hg, content?_of_absent he' hg]
      rfl
    | some g =>
      rw [he, Option.bind_some, hg] at h
      rw [content?_of_resident he hg, content?_of_resident he' hg]
      exact bytes_withBytes_of_ne content fun heq => h (congrArg some heq)

/-- Other bytes are sound in a frame without clean page. -/
theorem Sound.withBytes (h : m.Sound l) (content : Page)
    (hdirty : ∀ (p : UserProcess) (page : PageNumber) (e : PageEntry), m.Registered p →
      m.entryOf? p page = some e → e.frame? = some f → e.dirty = true) :
    (m.withBytes f content).Sound l where
  pool := h.pool
  size_memory := (Array.size_setIfInBounds).trans h.size_memory
  census := h.census.congr rfl rfl rfl
  broken := h.broken
  agreement := ⟨h.agreement.mapped, h.agreement.recorded, h.agreement.owned, h.agreement.pins,
    h.agreement.exists_pinned, h.agreement.unmapped⟩
  clean p page e g hp he hg hd := by
    have hne : g ≠ f := by
      rintro rfl
      rw [hdirty p page e hp he hg] at hd
      contradiction
    rw [bytes_withBytes_of_ne content hne]
    exact h.clean p page e g hp he hg hd

/-! ## Changes that concern one frame -/

/-- Only the frame `f` is concerned, whose record is `j` afterwards. The other frames keep their
records, and no page moves from or to them. -/
structure Confined (m m' : Machine) (f : FrameNumber) (j : FrameInfo ProcessId) : Prop where
  registry : ∀ pid : ProcessId, m'.process? pid = m.process? pid
  info : ∀ g, m'.frameInfo? g = if g = f then some j else m.frameInfo? g
  mapping : ∀ (p : UserProcess) (page : PageNumber) (g : FrameNumber), m.Registered p → g ≠ f →
    ((m'.table p).translate? page = some g ↔ (m.table p).translate? page = some g)

/-- What the agreement says of the frame `f` if its record is `i`. -/
structure AgreesAt (m : Machine) (l : Ledger) (f : FrameNumber) (i : FrameInfo ProcessId) :
    Prop where
  mapped : ∀ (p : UserProcess) (page : PageNumber), m.Registered p →
    (m.table p).translate? page = some f → i.owner = some p.pid ∧ i.page = page
  recorded : ∀ p : UserProcess, i.owner = some p.pid → m.Registered p → f ∉ l.loose →
    (m.table p).translate? i.page = some f
  owned : ∀ pid, i.owner = some pid → m.process? pid ≠ none ∨ pid ∈ l.broken
  pins : i.pins = l.pinned.count f + l.loose.count f
  unmapped : f ∈ l.loose → f ∉ l.pinned ∧ ∀ (p : UserProcess) (page : PageNumber),
    m.Registered p → (m.table p).translate? page ≠ some f

theorem Agreement.agreesAt (h : m.Agreement l) (hi : m.frameInfo? f = some i) :
    m.AgreesAt l f i where
  mapped p page hp ht := by
    obtain ⟨k, hk, ho, hpage⟩ := h.mapped p page f hp ht
    rw [hi, Option.some.injEq] at hk
    exact ⟨hk ▸ ho, hk ▸ hpage⟩
  recorded p := h.recorded f i p hi
  owned pid := h.owned f i pid hi
  pins := h.pins f i hi
  unmapped := h.unmapped f

namespace Confined

variable {m' : Machine} {j : FrameInfo ProcessId}

/-- A new pool with the record of one frame changed. -/
theorem withFrames {t : FrameTable ProcessId}
    (hinfo : ∀ g, t.info? g = if g = f then some j else m.frameInfo? g) :
    Confined m (m.withFrames t) f j :=
  ⟨fun _ => rfl, hinfo, fun _ _ _ _ _ => Iff.rfl⟩

variable (hc : Confined m m' f j)
include hc

theorem registered (p : UserProcess) : m'.Registered p ↔ m.Registered p := by
  rw [Registered, hc.registry]
  rfl

theorem info_self : m'.frameInfo? f = some j := by
  rw [hc.info, if_pos rfl]

theorem info_of_ne {g : FrameNumber} (hg : g ≠ f) : m'.frameInfo? g = m.frameInfo? g := by
  rw [hc.info, if_neg hg]

/-- A record is that of the frame that is concerned, or an old one. -/
theorem info_cases {g : FrameNumber} {k : FrameInfo ProcessId} (hk : m'.frameInfo? g = some k) :
    (g = f ∧ k = j) ∨ (g ≠ f ∧ m.frameInfo? g = some k) := by
  by_cases hg : g = f
  · subst hg
    rw [hc.info_self, Option.some.injEq] at hk
    exact Or.inl ⟨rfl, hk.symm⟩
  · exact Or.inr ⟨hg, hc.info_of_ne hg ▸ hk⟩

/-- Owners and pages of pinned frames stay if the frame that is concerned is not pinned. -/
theorem owner {pinned : List FrameNumber} (hf : f ∉ pinned) : ∀ g ∈ pinned, ∀ k,
    m.frameInfo? g = some k → ∃ k', m'.frameInfo? g = some k' ∧ k'.owner = k.owner ∧
      k'.page = k.page := by
  intro g hg k hk
  have hgf : g ≠ f := fun heq => hf (heq ▸ hg)
  exact ⟨k, (hc.info_of_ne hgf).trans hk, rfl, rfl⟩

end Confined

/-- **The agreement is local.** After a change that concerns one frame, it is enough to look at that
frame. -/
theorem Agreement.confined (h : m.Agreement l) {m' : Machine} {j : FrameInfo ProcessId}
    (hc : Confined m m' f j) {pinned loose : List FrameNumber}
    (hpinned : ∀ g, g ≠ f → pinned.count g = l.pinned.count g)
    (hloose : ∀ g, g ≠ f → loose.count g = l.loose.count g)
    (hat : m'.AgreesAt { l with pinned, loose } f j) :
    m'.Agreement { l with pinned, loose } := by
  have hmem : ∀ g, g ≠ f → (g ∈ pinned ↔ g ∈ l.pinned) ∧ (g ∈ loose ↔ g ∈ l.loose) := by
    intro g hg
    simp only [← List.count_pos_iff, hpinned g hg, hloose g hg, and_self]
  refine ⟨?_, ?_, ?_, ?_, ?_, ?_⟩
  · intro p page g hp ht
    by_cases hg : g = f
    · subst hg
      exact ⟨j, hc.info_self, hat.mapped p page hp ht⟩
    · have hp' := (hc.registered p).mp hp
      rw [hc.info_of_ne hg]
      exact h.mapped p page g hp' ((hc.mapping p page g hp' hg).mp ht)
  · intro g k p hk ho hp hg'
    rcases hc.info_cases hk with ⟨rfl, rfl⟩ | ⟨hg, hk'⟩
    · exact hat.recorded p ho hp hg'
    · have hp' := (hc.registered p).mp hp
      exact (hc.mapping p k.page g hp' hg).mpr
        (h.recorded g k p hk' ho hp' fun hm => hg' ((hmem g hg).2.mpr hm))
  · intro g k pid hk ho
    rcases hc.info_cases hk with ⟨rfl, rfl⟩ | ⟨-, hk'⟩
    · exact hat.owned pid ho
    · rw [hc.registry]
      exact h.owned g k pid hk' ho
  · intro g k hk
    rcases hc.info_cases hk with ⟨rfl, rfl⟩ | ⟨hg, hk'⟩
    · exact hat.pins
    · rw [hpinned g hg, hloose g hg]
      exact h.pins g k hk'
  · intro g hg'
    by_cases hg : g = f
    · exact ⟨j, hg ▸ hc.info_self⟩
    · rw [hc.info_of_ne hg]
      exact h.exists_pinned g ((hmem g hg).1.mp hg')
  · intro g hg'
    by_cases hg : g = f
    · subst hg
      exact hat.unmapped hg'
    · obtain ⟨hnot, hall⟩ := h.unmapped g ((hmem g hg).2.mp hg')
      refine ⟨fun hm => hnot ((hmem g hg).1.mp hm), fun p page hp ht => ?_⟩
      have hp' := (hc.registered p).mp hp
      exact hall p page hp' ((hc.mapping p page g hp' hg).mp ht)

/-- A new pool in which the record of one frame changed is sound if it agrees with the ledger about
that frame. -/
theorem Sound.reframed (h : m.Sound l) {t : FrameTable ProcessId} (hvalid : t.Valid)
    (hsize : t.directory.size = m.kernel.frames.directory.size) {j : FrameInfo ProcessId}
    (hinfo : ∀ g, t.info? g = if g = f then some j else m.frameInfo? g)
    {pinned loose : List FrameNumber}
    (hpinned : ∀ g, g ≠ f → pinned.count g = l.pinned.count g)
    (hloose : ∀ g, g ≠ f → loose.count g = l.loose.count g)
    (hat : m.AgreesAt { l with pinned, loose } f j) :
    (m.withFrames t).Sound { l with pinned, loose } where
  pool := hvalid
  size_memory := h.size_memory.trans hsize.symm
  census := h.census.congr rfl rfl rfl
  broken := h.broken
  agreement := h.agreement.confined (.withFrames hinfo) hpinned hloose
    ⟨hat.mapped, hat.recorded, hat.owned, hat.pins, hat.unmapped⟩
  clean := h.clean

/-! ## Pins -/

/-- The order in which pins are listed does not matter. -/
theorem Sound.perm (h : m.Sound l) {pinned : List FrameNumber} (hp : l.pinned.Perm pinned) :
    m.Sound { l with pinned } where
  pool := h.pool
  size_memory := h.size_memory
  census := h.census
  broken := h.broken
  agreement :=
    { mapped := h.agreement.mapped
      recorded := h.agreement.recorded
      owned := h.agreement.owned
      pins := fun f i hi => by rw [h.agreement.pins f i hi, hp.count_eq]
      exists_pinned := fun f hf => h.agreement.exists_pinned f (hp.mem_iff.mpr hf)
      unmapped := fun f hf =>
        ⟨fun hpin => (h.agreement.unmapped f hf).1 (hp.mem_iff.mpr hpin),
          (h.agreement.unmapped f hf).2⟩ }
  clean := h.clean

/-- A change of the pins of one frame, of which the ledger knows. -/
theorem Sound.repin (h : m.Sound l) (hi : m.frameInfo? f = some i) (hloose : f ∉ l.loose)
    {t : FrameTable ProcessId} (hvalid : t.Valid)
    (hsize : t.directory.size = m.kernel.frames.directory.size) {n : Nat}
    (hinfo : ∀ g, t.info? g = if g = f then some { i with pins := n } else m.frameInfo? g)
    {pinned : List FrameNumber} (hself : pinned.count f = n)
    (hother : ∀ g, g ≠ f → pinned.count g = l.pinned.count g) :
    (m.withFrames t).Sound { l with pinned } := by
  have hat := h.agreement.agreesAt hi
  refine h.reframed hvalid hsize hinfo hother (fun _ _ => rfl)
    ⟨hat.mapped, hat.recorded, hat.owned, ?_, fun hf => absurd hf hloose⟩
  rw [hself, List.count_eq_zero.mpr hloose, Nat.add_zero]

/-- A record with the same owner and page is no change to the frames that are kept. -/
theorem Keeps.reinfo (hi : m.frameInfo? f = some i) {t : FrameTable ProcessId}
    {j : FrameInfo ProcessId} (howner : j.owner = i.owner) (hpage : j.page = i.page)
    (hinfo : ∀ g, t.info? g = if g = f then some j else m.frameInfo? g)
    (pinned : List FrameNumber) : Keeps m (m.withFrames t) pinned where
  registry _ := rfl
  content _ _ _ := rfl
  owner g _ k hk := by
    rw [frameInfo?, kernel_withFrames, hinfo]
    by_cases hg : g = f
    · rw [hg, hi, Option.some.injEq] at hk
      rw [if_pos hg]
      exact ⟨j, rfl, hk ▸ howner, hk ▸ hpage⟩
    · rw [if_neg hg]
      exact ⟨k, hk, rfl, rfl⟩
  bytes _ _ := rfl

/-- A frame with an owner gets another pin. -/
theorem Sound.addPin (h : m.Sound l) (hi : m.frameInfo? f = some i) (howner : i.owner ≠ none)
    (hloose : f ∉ l.loose) :
    (m.withFrames (m.kernel.frames.withInfo f { i with pins := i.pins + 1 })).Sound
      { l with pinned := f :: l.pinned } := by
  have hpins := h.agreement.pins f i hi
  rw [List.count_eq_zero.mpr hloose, Nat.add_zero] at hpins
  refine h.repin (n := i.pins + 1) (t := m.kernel.frames.withInfo f { i with pins := i.pins + 1 })
    hi hloose (h.pool.withInfo hi howner howner) (FrameTable.size_withInfo ..)
    (FrameTable.info?_withInfo hi _) ?_ ?_
  · rw [List.count_cons_self, hpins]
  · intro g hg
    rw [List.count_cons_of_ne (Ne.symm hg)]

theorem Keeps.addPin (hi : m.frameInfo? f = some i) (pinned : List FrameNumber) :
    Keeps m (m.withFrames (m.kernel.frames.withInfo f { i with pins := i.pins + 1 })) pinned :=
  .reinfo (j := { i with pins := i.pins + 1 }) hi rfl rfl (FrameTable.info?_withInfo hi _) pinned

/-- A user takes a pin back. -/
theorem Sound.dropPin {pinned : List FrameNumber} (h : m.Sound l) (hl : l.pinned = f :: pinned)
    (hi : m.frameInfo? f = some i) :
    (m.withFrames (m.kernel.frames.dropPin f i)).Sound { l with pinned } := by
  have hmem : f ∈ l.pinned := by rw [hl]; exact List.mem_cons_self
  obtain ⟨j, hj, -, howner⟩ := h.info_of_pinned hmem
  rw [hi, Option.some.injEq] at hj
  subst hj
  have hloose : f ∉ l.loose := fun hf => (h.agreement.unmapped f hf).1 hmem
  have hpins := h.agreement.pins f i hi
  rw [List.count_eq_zero.mpr hloose, Nat.add_zero, hl, List.count_cons_self] at hpins
  refine h.repin (n := i.pins - 1) hi hloose (h.pool.dropPin hi howner) (FrameTable.size_dropPin ..)
    (FrameTable.info?_dropPin hi) (by omega) ?_
  intro g hg
  rw [hl, List.count_cons_of_ne (Ne.symm hg)]

theorem Keeps.dropPin (hi : m.frameInfo? f = some i) (pinned : List FrameNumber) :
    Keeps m (m.withFrames (m.kernel.frames.dropPin f i)) pinned :=
  .reinfo (j := { i with pins := i.pins - 1 }) hi rfl rfl (FrameTable.info?_dropPin hi) pinned

/-! ## A frame is handed out -/

/-- The top frame of the free list goes to a page, and its pin is loose for now. -/
theorem Sound.handOut (h : m.Sound l) {fs : List FrameNumber}
    (hfree : m.kernel.frames.free.stack = f :: fs) (hp : m.Registered p) (page : PageNumber) :
    (m.withFrames (m.kernel.frames.handOut f p.pid page)).Sound
      { l with loose := f :: l.loose } := by
  obtain ⟨i, hi, hnone⟩ :=
    (h.pool.mem_stack f).mp (by rw [hfree]; exact List.mem_cons_self)
  have hi' : m.frameInfo? f = some i := hi
  have hpins : i.pins = 0 := h.pool.unpinned f i hi hnone
  obtain ⟨hpinned, hloose⟩ := h.not_pinned hi hpins
  have hat := h.agreement.agreesAt hi'
  have hunmapped : ∀ (q : UserProcess) (page' : PageNumber), m.Registered q →
      (m.table q).translate? page' ≠ some f := by
    intro q page' hq ht
    have howner := (hat.mapped q page' hq ht).1
    rw [hnone] at howner
    contradiction
  refine h.reframed (h.pool.handOut hfree p.pid page) (FrameTable.size_handOut ..)
    (FrameTable.info?_handOut hi p.pid page) (fun _ _ => rfl) ?_ ⟨?_, ?_, ?_, ?_, ?_⟩
  · intro g hg
    rw [List.count_cons_of_ne (Ne.symm hg)]
  · exact fun q page' hq ht => absurd ht (hunmapped q page' hq)
  · exact fun _ _ _ hf => absurd List.mem_cons_self hf
  · intro pid ho
    have hreg : m.process? p.pid = some p := hp
    rw [Option.some.injEq] at ho
    rw [← ho]
    exact Or.inl (hreg ▸ Option.some_ne_none p)
  · rw [List.count_cons_self, List.count_eq_zero.mpr hpinned, List.count_eq_zero.mpr hloose]
  · exact fun _ => ⟨hpinned, hunmapped⟩

theorem Keeps.handOut (h : m.Sound l) {fs : List FrameNumber}
    (hfree : m.kernel.frames.free.stack = f :: fs) (pid : ProcessId) (page : PageNumber) :
    Keeps m (m.withFrames (m.kernel.frames.handOut f pid page)) l.pinned := by
  obtain ⟨i, hi, hnone⟩ :=
    (h.pool.mem_stack f).mp (by rw [hfree]; exact List.mem_cons_self)
  have hunpinned := (h.not_pinned hi (h.pool.unpinned f i hi hnone)).1
  exact ⟨fun _ => rfl, fun _ _ _ => rfl,
    (Confined.withFrames (FrameTable.info?_handOut hi pid page)).owner hunpinned, fun _ _ => rfl⟩

/-! ## A frame is taken from its owner -/

/-- The machine after the unpinned frame `f` was taken from page `page` of `q`, which had the entry
`e`. The swap store is `swap` by then. -/
def evicted (m : Machine) (q : UserProcess) (page : PageNumber) (e : PageEntry) (f : FrameNumber)
    (swap : Swap) : Machine :=
  ((m.withEntry q page e.evicted).withSwap swap).withFrames (m.kernel.frames.takeBack f)

@[simp] theorem kernel_evicted (m : Machine) (q : UserProcess) (page : PageNumber) (e : PageEntry)
    (f : FrameNumber) (swap : Swap) : (m.evicted q page e f swap).kernel =
      { m.kernel with swap, frames := m.kernel.frames.takeBack f } := rfl

/-- The store has a copy of the page if it was dirty, and is as before otherwise. -/
def Saved (m : Machine) (q : UserProcess) (page : PageNumber) (e : PageEntry) (f : FrameNumber)
    (swap : Swap) : Prop :=
  ∀ key, swap.copy? key = if e.dirty = true ∧ key = (q.pid, page)
    then m.kernel.memory.frames[f.toNat]? else m.kernel.swap.copy? key

section Evicted

variable {swap : Swap} (h : m.Sound l) (hq : m.Registered q) (he : m.entryOf? q page = some e)
  (hf : e.frame? = some f) (hi : m.frameInfo? f = some i) (hpins : i.pins = 0)
include h hq he hf hi hpins

omit hf hi hpins in
variable (f swap) in
/-- The page that lost its frame is one page of one process. -/
theorem entryOf?_evicted (hp : m.Registered p) (page' : PageNumber) :
    (p = q ∧ page' = page ∧ (m.evicted q page e f swap).entryOf? p page' = some e.evicted) ∨
      ((p.pid, page') ≠ (q.pid, page) ∧
        (m.evicted q page e f swap).entryOf? p page' = m.entryOf? p page') :=
  entryOf?_withEntry e.evicted page' h.census (h.census.mem hq) (h.census.mem hp) he

omit hpins in
/-- An eviction concerns the frame of the victim only. -/
theorem Confined.evicted : Confined m (m.evicted q page e f swap) f .free := by
  refine ⟨fun _ => rfl, FrameTable.info?_takeBack hi, fun p page' g hp hg => ?_⟩
  rw [translate?_table, translate?_table]
  cases entryOf?_evicted f swap h hq he hp page' with
  | inl hsame =>
    obtain ⟨rfl, rfl, hnew⟩ := hsame
    rw [hnew, he, Option.bind_some, Option.bind_some, PageEntry.frame?_evicted, hf,
      Option.some.injEq]
    exact iff_of_false (Option.some_ne_none g).symm (Ne.symm hg)
  | inr hother => rw [hother.2]

omit hi hpins in
/-- Nobody maps the frame after the eviction. -/
theorem unmapped_evicted (hp : m.Registered p) (page' : PageNumber) :
    ((m.evicted q page e f swap).table p).translate? page' ≠ some f := by
  obtain ⟨j, hj, howner, hpage⟩ := h.info_of_entry hq he hf
  rw [translate?_table]
  cases entryOf?_evicted f swap h hq he hp page' with
  | inl hsame =>
    rw [hsame.2.2, Option.bind_some, PageEntry.frame?_evicted]
    exact (Option.some_ne_none f).symm
  | inr hother =>
    rw [hother.2]
    intro ht
    obtain ⟨ho, hp'⟩ := (h.agreement.agreesAt hj).mapped p page' hp ht
    rw [howner, Option.some.injEq] at ho
    rw [hpage] at hp'
    exact hother.1 (by rw [ho, hp'])

theorem Agreement.evicted : (m.evicted q page e f swap).Agreement l := by
  have hat := h.agreement.agreesAt hi
  refine h.agreement.confined (.evicted h hq he hf hi) (fun _ _ => rfl) (fun _ _ => rfl)
    ⟨?_, ?_, ?_, ?_, ?_⟩
  · exact fun p page' hp ht => absurd ht (unmapped_evicted h hq he hf hp page')
  · exact fun _ ho => absurd ho.symm (Option.some_ne_none _)
  · exact fun _ ho => absurd ho.symm (Option.some_ne_none _)
  · rw [← hat.pins, hpins]
    rfl
  · exact fun hm => ⟨(hat.unmapped hm).1, fun p page' hp => unmapped_evicted h hq he hf hp page'⟩

theorem Sound.evicted (hs : m.Saved q page e f swap) : (m.evicted q page e f swap).Sound l := by
  obtain ⟨j, hj, howner, -⟩ := h.info_of_entry hq he hf
  rw [hi, Option.some.injEq] at hj
  subst hj
  refine ⟨h.pool.takeBack hi (howner ▸ Option.some_ne_none _),
    h.size_memory.trans (FrameTable.size_takeBack ..).symm,
    h.census.congr rfl rfl (sizes_withTable (PageTable.size_setEntry ..)), h.broken,
    .evicted h hq he hf hi hpins, ?_⟩
  intro p page' e' g hp he' hg hd
  cases entryOf?_evicted f swap h hq he hp page' with
  | inl hsame =>
    rw [hsame.2.2, Option.some.injEq] at he'
    rw [← he', PageEntry.frame?_evicted] at hg
    contradiction
  | inr hother =>
    rw [hother.2] at he'
    have hclean := h.clean p page' e' g hp he' hg hd
    have hcopy := hs (p.pid, page')
    rw [if_neg fun hc => hother.1 hc.2] at hcopy
    rw [storedContent?] at hclean ⊢
    rw [kernel_evicted, hcopy, hclean]

/-- **Eviction keeps every page.** A dirty page moves to the store, and a clean one was there, or in
the executable, all along. -/
theorem Keeps.evicted (hs : m.Saved q page e f swap) :
    Keeps m (m.evicted q page e f swap) l.pinned where
  registry _ := rfl
  content p page' hp := by
    have hcopy := hs (p.pid, page')
    cases entryOf?_evicted f swap h hq he hp page' with
    | inl hsame =>
      obtain ⟨rfl, rfl, hnew⟩ := hsame
      rw [content?_of_absent hnew (PageEntry.frame?_evicted e), content?_of_resident he hf,
        storedContent?, kernel_evicted]
      by_cases hd : e.dirty = true
      · obtain ⟨content, hc⟩ := h.exists_bytes hi
        rw [if_pos ⟨hd, rfl⟩, hc] at hcopy
        rw [hcopy, hc, Option.some_or]
      · rw [if_neg fun hc => hd hc.1] at hcopy
        rw [hcopy]
        exact h.clean p page' e f hp he hf (Bool.not_eq_true _ ▸ hd)
    | inr hother =>
      rw [if_neg fun hc => hother.1 hc.2] at hcopy
      simp only [content?, hother.2, storedContent?, kernel_evicted, hcopy]
  owner := (Confined.evicted h hq he hf hi).owner (h.not_pinned hi hpins).1
  bytes _ _ := rfl

end Evicted

/-! ## A frame becomes free -/

/-- A frame that nobody maps, and that nobody else has pinned, may become free. -/
theorem Sound.freed (h : m.Sound l) {t : FrameTable ProcessId} (hvalid : t.Valid)
    (hsize : t.directory.size = m.kernel.frames.directory.size)
    (hinfo : ∀ g, t.info? g = if g = f then some .free else m.frameInfo? g)
    (hpinned : f ∉ l.pinned)
    (hunmapped : ∀ (p : UserProcess) (page : PageNumber), m.Registered p →
      (m.table p).translate? page ≠ some f)
    {loose : List FrameNumber} (hself : f ∉ loose)
    (hother : ∀ g, g ≠ f → loose.count g = l.loose.count g) :
    (m.withFrames t).Sound { l with loose } := by
  refine h.reframed hvalid hsize hinfo (fun _ _ => rfl) hother ⟨?_, ?_, ?_, ?_, ?_⟩
  · exact fun p page hp ht => absurd ht (hunmapped p page hp)
  · exact fun _ ho => absurd ho.symm (Option.some_ne_none _)
  · exact fun _ ho => absurd ho.symm (Option.some_ne_none _)
  · rw [List.count_eq_zero.mpr hpinned, List.count_eq_zero.mpr hself]
    rfl
  · exact fun hf => absurd hf hself

theorem Keeps.freed {t : FrameTable ProcessId}
    (hinfo : ∀ g, t.info? g = if g = f then some .free else m.frameInfo? g)
    {pinned : List FrameNumber} (hpinned : f ∉ pinned) : Keeps m (m.withFrames t) pinned where
  registry _ := rfl
  content _ _ _ := rfl
  owner := (Confined.withFrames hinfo).owner hpinned
  bytes _ _ := rfl

section Loose

variable {loose : List FrameNumber} (h : m.Sound l) (hl : l.loose = f :: loose)
include h hl

/-- A loose frame with one pin is loose once, and no user keeps it pinned. -/
theorem Sound.loose_once (hi : m.frameInfo? f = some i) (hpins : i.pins = 1) :
    f ∉ loose ∧ f ∉ l.pinned := by
  have heq := h.agreement.pins f i hi
  rw [hl, List.count_cons_self, hpins] at heq
  have hpinned : f ∉ l.pinned :=
    (h.agreement.unmapped f (by rw [hl]; exact List.mem_cons_self)).1
  refine ⟨fun hm => ?_, hpinned⟩
  have hpos : 0 < loose.count f := List.count_pos_iff.mpr hm
  omega

omit h hl in
theorem info?_dropPin_takeBack (hi : m.frameInfo? f = some i) (g : FrameNumber) :
    ((m.kernel.frames.dropPin f i).takeBack f).info? g =
      if g = f then some .free else m.frameInfo? g := by
  have hdrop := FrameTable.info?_dropPin hi
  rw [FrameTable.info?_takeBack (by rw [hdrop, if_pos rfl])]
  by_cases hg : g = f
  · rw [if_pos hg, if_pos hg]
  · rw [if_neg hg, if_neg hg, hdrop, if_neg hg]
    rfl

/-- A frame that was handed out and not used goes back. -/
theorem Sound.giveBack (hi : m.frameInfo? f = some i) (hpins : i.pins = 1) :
    (m.withFrames ((m.kernel.frames.dropPin f i).takeBack f)).Sound { l with loose } := by
  obtain ⟨hloose, hpinned⟩ := h.loose_once hl hi hpins
  have hmem : f ∈ l.loose := by rw [hl]; exact List.mem_cons_self
  have howner := h.owner_of_pinned hi (by omega)
  have hdrop := FrameTable.info?_dropPin hi f
  rw [if_pos rfl] at hdrop
  refine h.freed ((h.pool.dropPin hi howner).takeBack hdrop howner) ?_
    (info?_dropPin_takeBack hi) hpinned (h.agreement.unmapped f hmem).2 hloose ?_
  · rw [FrameTable.size_takeBack, FrameTable.size_dropPin]
  · intro g hg
    rw [hl, List.count_cons_of_ne (Ne.symm hg)]

theorem Keeps.giveBack (hi : m.frameInfo? f = some i) (hpins : i.pins = 1) :
    Keeps m (m.withFrames ((m.kernel.frames.dropPin f i).takeBack f)) l.pinned :=
  .freed (info?_dropPin_takeBack hi) (h.loose_once hl hi hpins).2

/-! ## A frame is filled and installed -/

/-- The bytes of a loose frame are nobody's. -/
theorem Sound.fill (content : Page) : (m.withBytes f content).Sound l := by
  have hmem : f ∈ l.loose := by rw [hl]; exact List.mem_cons_self
  refine h.withBytes content fun p page e hp he hf => ?_
  refine absurd ?_ ((h.agreement.unmapped f hmem).2 p page hp)
  rw [translate?_table, he, Option.bind_some, hf]

theorem Keeps.fill (content : Page) : Keeps m (m.withBytes f content) l.pinned := by
  have hmem : f ∈ l.loose := by rw [hl]; exact List.mem_cons_self
  obtain ⟨hpinned, hunmapped⟩ := h.agreement.unmapped f hmem
  refine ⟨fun _ => rfl, fun p page hp => ?_, fun _ _ k hk => ⟨k, hk, rfl, rfl⟩, ?_⟩
  · exact content?_withBytes_of_ne content (hunmapped p page hp)
  · intro g hg
    exact bytes_withBytes_of_ne content fun heq => hpinned (heq ▸ hg)

section Install

variable (hp : m.Registered p) (he : m.entryOf? p page = some e) (habsent : e.frame? = none)
  (hi : m.frameInfo? f = some i) (hpins : i.pins = 1)
  (hbytes : m.kernel.memory.frames[f.toNat]? = m.storedContent? p page) {e' : PageEntry}
  (hf : e'.frame? = some f)
include hp he habsent hi hpins hbytes hf

omit hl hpins hbytes in
/-- An installation concerns the frame of the new entry only. -/
theorem Confined.install : Confined m (m.withEntry p page e') f i := by
  refine ⟨fun _ => rfl, fun g => ?_, fun q page' g hq hg => ?_⟩
  · split
    · next heq => exact heq ▸ hi
    · rfl
  · rw [translate?_table, translate?_table]
    cases entryOf?_withEntry e' page' h.census (h.census.mem hp) (h.census.mem hq) he with
    | inl hsame =>
      obtain ⟨rfl, rfl, hnew⟩ := hsame
      rw [hnew, he, Option.bind_some, Option.bind_some, hf, habsent, Option.some.injEq]
      exact iff_of_false (Ne.symm hg) (Option.some_ne_none g).symm
    | inr hother => rw [hother.2]

omit hbytes in
theorem Agreement.install (howner : i.owner = some p.pid) (hpage : i.page = page) :
    (m.withEntry p page e').Agreement { l with pinned := f :: l.pinned, loose } := by
  obtain ⟨hloose, hpinned⟩ := h.loose_once hl hi hpins
  have hat := h.agreement.agreesAt hi
  have hmem : f ∈ l.loose := by rw [hl]; exact List.mem_cons_self
  refine h.agreement.confined (.install h hp he habsent hi hf) ?_ ?_ ⟨?_, ?_, hat.owned, ?_, ?_⟩
  · intro g hg
    rw [List.count_cons_of_ne (Ne.symm hg)]
  · intro g hg
    rw [hl, List.count_cons_of_ne (Ne.symm hg)]
  · intro q page' hq ht
    rw [translate?_table] at ht
    cases entryOf?_withEntry e' page' h.census (h.census.mem hp) (h.census.mem hq) he with
    | inl hsame =>
      obtain ⟨rfl, rfl, -⟩ := hsame
      exact ⟨howner, hpage⟩
    | inr hother =>
      rw [hother.2] at ht
      exact absurd ht ((hat.unmapped hmem).2 q page' hq)
  · intro q ho hq hm
    rw [howner, Option.some.injEq] at ho
    have hqp : q = p := h.census.eq_of_pid (h.census.mem hq) (h.census.mem hp) ho.symm
    rw [translate?_table, hqp, hpage, entryOf?_withEntry_self h.census (h.census.mem hp) he,
      Option.bind_some, hf]
  · rw [List.count_cons_self, List.count_eq_zero.mpr hpinned, List.count_eq_zero.mpr hloose, hpins]
  · exact fun hm => absurd hm hloose

/-- A loose frame is filled with the page it is meant for and mapped: its pin is the caller's. -/
theorem Sound.install (howner : i.owner = some p.pid) (hpage : i.page = page) :
    (m.withEntry p page e').Sound { l with pinned := f :: l.pinned, loose } := by
  refine ⟨h.pool, h.size_memory, h.census.withEntry, h.broken,
    .install h hl hp he habsent hi hpins hf howner hpage, ?_⟩
  intro q page' e₁ g hq he₁ hg hd
  cases entryOf?_withEntry e' page' h.census (h.census.mem hp)
    (h.census.mem hq) he with
  | inl hsame =>
    obtain ⟨rfl, rfl, hnew⟩ := hsame
    rw [hnew, Option.some.injEq] at he₁
    rw [← he₁, hf, Option.some.injEq] at hg
    rw [← hg]
    exact hbytes.symm
  | inr hother =>
    rw [hother.2] at he₁
    exact h.clean q page' e₁ g hq he₁ hg hd

omit hl hi hpins in
theorem Keeps.install : Keeps m (m.withEntry p page e') l.pinned where
  registry _ := rfl
  content q page' hq := by
    cases entryOf?_withEntry e' page' h.census (h.census.mem hp)
      (h.census.mem hq) he with
    | inl hsame =>
      obtain ⟨rfl, rfl, hnew⟩ := hsame
      rw [content?_of_absent he habsent, content?_of_resident hnew hf]
      exact hbytes
    | inr hother =>
      simp only [content?, hother.2]
      rfl
  owner _ _ k hk := ⟨k, hk, rfl, rfl⟩
  bytes _ _ := rfl

end Install

end Loose

/-! ## An entry is marked -/

section Reentry

variable (h : m.Sound l) (hp : m.Registered p) (he : m.entryOf? p page = some e) {e' : PageEntry}
  (hf : e'.frame? = e.frame?)
include h hp he hf

/-- Where a page lies does not depend on the marks of its entry. -/
theorem translate?_reentry (hq : m.Registered q) (page' : PageNumber) :
    ((m.withEntry p page e').table q).translate? page' = (m.table q).translate? page' := by
  rw [translate?_table, translate?_table]
  cases entryOf?_withEntry e' page' h.census (h.census.mem hp) (h.census.mem hq) he with
  | inl hsame =>
    obtain ⟨rfl, rfl, hnew⟩ := hsame
    rw [hnew, he, Option.bind_some, Option.bind_some, hf]
  | inr hother => rw [hother.2]

/-- The entry of a page may get marks. It must not become clean. -/
theorem Sound.reentry (hdirty : e'.dirty = false → e.dirty = false) :
    (m.withEntry p page e').Sound l := by
  have ht := fun (q : UserProcess) page' (hq : m.Registered q) =>
    translate?_reentry h hp he hf hq page'
  refine ⟨h.pool, h.size_memory, h.census.withEntry, h.broken, ?_, ?_⟩
  · refine ⟨?_, ?_, h.agreement.owned, h.agreement.pins, h.agreement.exists_pinned, ?_⟩
    · intro q page' g hq hg
      rw [ht q page' hq] at hg
      exact h.agreement.mapped q page' g hq hg
    · intro g k q hk ho hq hloose
      rw [ht q k.page hq]
      exact h.agreement.recorded g k q hk ho hq hloose
    · intro g hg
      refine ⟨(h.agreement.unmapped g hg).1, fun q page' hq => ?_⟩
      rw [ht q page' hq]
      exact (h.agreement.unmapped g hg).2 q page' hq
  · intro q page' e₁ g hq he₁ hg hd
    cases entryOf?_withEntry e' page' h.census (h.census.mem hp) (h.census.mem hq) he with
    | inl hsame =>
      obtain ⟨rfl, rfl, hnew⟩ := hsame
      rw [hnew, Option.some.injEq] at he₁
      rw [← he₁] at hg hd
      exact h.clean q page' e g hq he (hf ▸ hg) (hdirty hd)
    | inr hother =>
      rw [hother.2] at he₁
      exact h.clean q page' e₁ g hq he₁ hg hd

theorem Keeps.reentry (pinned : List FrameNumber) : Keeps m (m.withEntry p page e') pinned where
  registry _ := rfl
  content q page' hq := by
    cases entryOf?_withEntry e' page' h.census (h.census.mem hp) (h.census.mem hq) he with
    | inl hsame =>
      obtain ⟨rfl, rfl, hnew⟩ := hsame
      simp only [content?, hnew, he, hf]
      rfl
    | inr hother =>
      simp only [content?, hother.2]
      rfl
  owner _ _ k hk := ⟨k, hk, rfl, rfl⟩
  bytes _ _ := rfl

end Reentry

/-! ## A table that is nobody's -/

/-- The tables of processes that do not live do not matter. -/
theorem Sound.sameTables (h : m.Sound l) {m' : Machine} (hkernel : m'.kernel = m.kernel)
    (hsizes : m'.sizes = m.sizes)
    (ht : ∀ q, m.Registered q → m'.table q = m.table q) : m'.Sound l := by
  have hr : ∀ q, m'.Registered q ↔ m.Registered q := by
    intro q
    rw [Registered, Registered, process?, process?, hkernel]
  have hi : ∀ f, m'.frameInfo? f = m.frameInfo? f := by
    intro f
    rw [frameInfo?, hkernel]
    rfl
  refine ⟨hkernel ▸ h.pool, by rw [hkernel, h.size_memory],
    h.census.congr (by rw [hkernel]) (by rw [hkernel]) hsizes, h.broken,
    ⟨?_, ?_, ?_, ?_, ?_, ?_⟩, ?_⟩
  · intro q page f hq hf
    rw [ht q ((hr q).mp hq)] at hf
    rw [hi]
    exact h.agreement.mapped q page f ((hr q).mp hq) hf
  · intro f k q hk ho hq hloose
    rw [hi] at hk
    rw [ht q ((hr q).mp hq)]
    exact h.agreement.recorded f k q hk ho ((hr q).mp hq) hloose
  · intro f k pid hk ho
    rw [hi] at hk
    rw [process?, hkernel]
    exact h.agreement.owned f k pid hk ho
  · intro f k hk
    rw [hi] at hk
    exact h.agreement.pins f k hk
  · intro f hf
    rw [hi]
    exact h.agreement.exists_pinned f hf
  · intro f hf
    refine ⟨(h.agreement.unmapped f hf).1, fun q page hq => ?_⟩
    rw [ht q ((hr q).mp hq)]
    exact (h.agreement.unmapped f hf).2 q page ((hr q).mp hq)
  · intro q page e f hq he hf hd
    rw [entryOf?, ht q ((hr q).mp hq)] at he
    rw [storedContent?, hkernel]
    exact h.clean q page e f ((hr q).mp hq) he hf hd

theorem Keeps.sameTables {m' : Machine} (hkernel : m'.kernel = m.kernel)
    (ht : ∀ q, m.Registered q → m'.table q = m.table q) (pinned : List FrameNumber) :
    Keeps m m' pinned where
  registry pid := by
    rw [process?, hkernel]
    rfl
  content q page hq := by
    simp only [content?, entryOf?, ht q hq, storedContent?, hkernel]
  owner f _ i hi := by
    refine ⟨i, ?_, rfl, rfl⟩
    rw [frameInfo?, hkernel]
    exact hi
  bytes f _ := by rw [hkernel]

end Machine

end DemandPaging
