import DemandPaging.Kernel.Content
import DemandPaging.Proofs.Effect

/-!
# Sound machines

A machine is judged against a `Ledger`, which says what its users did: the processes they made, the
frames they keep pinned, and the processes whose teardown stopped half way. It is sound if

* free list and directory agree (`FrameTable.Valid`);
* the register and the page tables belong to the processes of the ledger (`Machine.Census`);
* directory and page tables are inverse to each other, and pins are those of the ledger
  (`Machine.Agreement`);
* the frame of a clean page holds what a fault would bring in again (`Machine.Clean`).

A change may leave a frame pinned by nobody, between its allocation and the installation of its page
and for ever if an executable violates an assertion meanwhile. Such pins are `loose` in the ledger,
so soundness holds at every stage of a fault.

`Machine.Keeps` is the frame condition of all changes but a write: contents of address spaces, and
the frames that stay pinned, are as they were. `Machine.Alike` is the finer condition of changes
that only concern the log, the counters, the clock and the waiters.
-/

namespace DemandPaging

/-- What the users of a machine did to it. -/
structure Ledger where
  /-- All processes ever made, in the order of their making. -/
  processes : List UserProcess
  /-- The frames that users keep pinned, one entry for each pin. -/
  pinned : List FrameNumber
  /-- The frames with a pin that no user will take back. -/
  loose : List FrameNumber
  /-- The processes whose teardown stopped half way. -/
  broken : List ProcessId

/-! ## The register -/

namespace Registry

/-- The identities in the register. -/
def keys (r : Registry) : List ProcessId := r.toList.map Prod.fst

/-- Who is not found under an identity is not listed under it. -/
theorem not_mem_keys {r : Registry} {pid : ProcessId} (h : r.find? pid = none) :
    pid ∉ r.keys := by
  intro hmem
  obtain ⟨entry, hentry, rfl⟩ := List.mem_map.mp hmem
  simpa using List.lookup_eq_none_iff.mp h entry hentry

/-- If no identity is listed twice, whoever is listed is found. -/
theorem find?_of_mem {r : Registry} (h : r.keys.Nodup) {pid : ProcessId} {p : UserProcess}
    (hmem : (pid, p) ∈ r.toList) : r.find? pid = some p := by
  obtain ⟨before, behind, hlist⟩ := List.append_of_mem hmem
  refine List.lookup_eq_some_iff.mpr ⟨before, behind, hlist, fun entry hentry => ?_⟩
  rw [keys, hlist, List.map_append, List.map_cons, List.nodup_append] at h
  have hne := h.2.2 entry.1 (List.mem_map_of_mem hentry) pid List.mem_cons_self
  rw [bne_iff_ne]
  exact hne.symm

theorem nodup_keys_erase {r : Registry} (h : r.keys.Nodup) (pid : ProcessId) :
    (r.erase pid).keys.Nodup :=
  h.sublist (List.filter_sublist.map Prod.fst)

theorem insertInto_perm {pid : ProcessId} (p : UserProcess) {l : List (ProcessId × UserProcess)}
    (h : pid ∉ l.map Prod.fst) : (insertInto pid p l).Perm ((pid, p) :: l) := by
  induction l with
  | nil => exact .refl _
  | cons entry rest ih =>
    obtain ⟨k, q⟩ := entry
    simp only [List.map_cons, List.mem_cons, not_or] at h
    have hne : pid ≠ k := h.1
    by_cases hlt : pid.toNat < k.toNat
    · rw [insertInto, if_pos hlt]
    · rw [insertInto, if_neg hlt, if_neg hne]
      exact ((ih h.2).cons (k, q)).trans (.swap ..)

/-- A process with a new identity joins without a conflict. -/
theorem nodup_keys_insert {r : Registry} (h : r.keys.Nodup) {p : UserProcess}
    (hnew : p.pid ∉ r.keys) : (r.insert p).keys.Nodup := by
  have hperm : (r.insert p).keys.Perm (p.pid :: r.keys) := (insertInto_perm p hnew).map Prod.fst
  rw [hperm.nodup_iff]
  exact List.nodup_cons.mpr ⟨hnew, h⟩

end Registry

namespace Machine

/-- The number of frames without a pin. -/
abbrev idle (m : Machine) : Nat := m.kernel.frames.directory.idle

/-- The calls that wait for a frame. -/
abbrev waiters (m : Machine) : WaitRoom := m.kernel.frames.waiters

/-- The process lives: it is the one registered under its identity. -/
def Registered (m : Machine) (p : UserProcess) : Prop := m.process? p.pid = some p

/-- Register, identities and page tables are those of the processes `ps`. -/
structure Census (m : Machine) (ps : List UserProcess) : Prop where
  few : ps.length < wordBound
  identity : ∀ (i : Nat) (p : UserProcess), ps[i]? = some p →
    p.pid = ProcessId.ofNat (i + 1) ∧ p.table.index = i
  size_tables : m.tables.size = ps.length
  nextPid : m.kernel.nextPid = ProcessId.ofNat (ps.length + 1)
  registered : ∀ (pid : ProcessId) (p : UserProcess), m.process? pid = some p →
    p.pid = pid ∧ p ∈ ps
  nodup_keys : m.kernel.registry.keys.Nodup
  fits : ∀ n ∈ m.sizes, n ≤ wordBound

/-- Directory and page tables are inverse to each other, and every pin is accounted for. -/
structure Agreement (m : Machine) (l : Ledger) : Prop where
  mapped : ∀ (p : UserProcess) (page : PageNumber) (f : FrameNumber), m.Registered p →
    (m.table p).translate? page = some f →
    ∃ i, m.frameInfo? f = some i ∧ i.owner = some p.pid ∧ i.page = page
  recorded : ∀ (f : FrameNumber) (i : FrameInfo ProcessId) (p : UserProcess),
    m.frameInfo? f = some i → i.owner = some p.pid → m.Registered p → f ∉ l.loose →
    (m.table p).translate? i.page = some f
  owned : ∀ (f : FrameNumber) (i : FrameInfo ProcessId) (pid : ProcessId),
    m.frameInfo? f = some i → i.owner = some pid → m.process? pid ≠ none ∨ pid ∈ l.broken
  pins : ∀ (f : FrameNumber) (i : FrameInfo ProcessId), m.frameInfo? f = some i →
    i.pins = l.pinned.count f + l.loose.count f
  exists_pinned : ∀ f ∈ l.pinned, ∃ i, m.frameInfo? f = some i
  unmapped : ∀ f ∈ l.loose, f ∉ l.pinned ∧ ∀ (p : UserProcess) (page : PageNumber),
    m.Registered p → (m.table p).translate? page ≠ some f

/-- The frame of a page that was not written since it was brought in holds what would be brought in
again. -/
def Clean (m : Machine) : Prop :=
  ∀ (p : UserProcess) (page : PageNumber) (e : PageEntry) (f : FrameNumber), m.Registered p →
    m.entryOf? p page = some e → e.frame? = some f → e.dirty = false →
    m.storedContent? p page = m.kernel.memory.frames[f.toNat]?

/-- All parts of the machine agree with each other and with the ledger. -/
structure Sound (m : Machine) (l : Ledger) : Prop where
  pool : m.kernel.frames.Valid
  size_memory : m.kernel.memory.frames.size = m.kernel.frames.directory.size
  census : m.Census l.processes
  broken : ∀ pid ∈ l.broken, ∃ p ∈ l.processes, p.pid = pid
  agreement : m.Agreement l
  clean : m.Clean

/-- The page of `p` has the entry `e` and is not resident. -/
def Absent (m : Machine) (p : UserProcess) (page : PageNumber) (e : PageEntry) : Prop :=
  m.Registered p ∧ m.entryOf? p page = some e ∧ e.frame? = none

/-- What is as before: the register, the contents of the processes that live, and the owner, the
page and the bytes of the frames in `pinned`. -/
structure Keeps (m m' : Machine) (pinned : List FrameNumber) : Prop where
  registry : ∀ pid : ProcessId, m'.process? pid = m.process? pid
  content : ∀ (p : UserProcess) (page : PageNumber), m.Registered p →
    m'.content? p page = m.content? p page
  owner : ∀ f ∈ pinned, ∀ i, m.frameInfo? f = some i →
    ∃ j, m'.frameInfo? f = some j ∧ j.owner = i.owner ∧ j.page = i.page
  bytes : ∀ f ∈ pinned, m'.kernel.memory.frames[f.toNat]? = m.kernel.memory.frames[f.toNat]?

/-- Apart from the log, the counters, the clock and the waiters, nothing changed. -/
structure Alike (m m' : Machine) : Prop where
  free : m'.kernel.frames.free = m.kernel.frames.free
  marks : m.kernel.frames.directory.SameButMarks m'.kernel.frames.directory
  registry : m'.kernel.registry = m.kernel.registry
  memory : m'.kernel.memory = m.kernel.memory
  copies : ∀ key, m'.kernel.swap.copy? key = m.kernel.swap.copy? key
  nextPid : m'.kernel.nextPid = m.kernel.nextPid
  tables : m'.tables = m.tables

theorem Keeps.refl (m : Machine) (pinned : List FrameNumber) : Keeps m m pinned :=
  ⟨fun _ => rfl, fun _ _ _ => rfl, fun _ _ i hi => ⟨i, hi, rfl, rfl⟩, fun _ _ => rfl⟩

theorem Keeps.registered {m m' : Machine} {pinned : List FrameNumber} (h : Keeps m m' pinned)
    (p : UserProcess) : m'.Registered p ↔ m.Registered p := by
  rw [Registered, h.registry]
  rfl

theorem Keeps.trans {m m' m'' : Machine} {pinned : List FrameNumber} (h : Keeps m m' pinned)
    (h' : Keeps m' m'' pinned) : Keeps m m'' pinned where
  registry pid := (h'.registry pid).trans (h.registry pid)
  content p page hp :=
    (h'.content p page ((h.registered p).mpr hp)).trans (h.content p page hp)
  owner f hf i hi := by
    obtain ⟨j, hj, ho, hp⟩ := h.owner f hf i hi
    obtain ⟨k, hk, ho', hp'⟩ := h'.owner f hf j hj
    exact ⟨k, hk, ho'.trans ho, hp'.trans hp⟩
  bytes f hf := (h'.bytes f hf).trans (h.bytes f hf)

theorem Keeps.mono {m m' : Machine} {pinned pinned' : List FrameNumber} (h : Keeps m m' pinned)
    (hsub : ∀ f ∈ pinned', f ∈ pinned) : Keeps m m' pinned' :=
  ⟨h.registry, h.content, fun f hf => h.owner f (hsub f hf), fun f hf => h.bytes f (hsub f hf)⟩

/-! ## Where the content lies -/

section Content

variable {m : Machine} {p : UserProcess} {page : PageNumber} {e : PageEntry} {f : FrameNumber}

theorem content?_of_none (he : m.entryOf? p page = none) : m.content? p page = none := by
  simp only [content?, he]

theorem content?_of_absent (he : m.entryOf? p page = some e) (hf : e.frame? = none) :
    m.content? p page = m.storedContent? p page := by
  simp only [content?, he, hf]

theorem content?_of_resident (he : m.entryOf? p page = some e) (hf : e.frame? = some f) :
    m.content? p page = m.kernel.memory.frames[f.toNat]? := by
  simp only [content?, he, hf]

end Content

/-! ## Identities -/

namespace Census

variable {m : Machine} {ps : List UserProcess} {p q : UserProcess}

theorem index_lt (h : m.Census ps) (hp : p ∈ ps) : p.table.index < m.tables.size := by
  obtain ⟨i, hi, he⟩ := List.mem_iff_getElem.mp hp
  rw [h.size_tables, (h.identity i p (by rw [List.getElem?_eq_getElem hi, he])).2]
  exact hi

/-- Every process has a page table of its own. -/
theorem eq_of_index (h : m.Census ps) (hp : p ∈ ps) (hq : q ∈ ps)
    (heq : p.table.index = q.table.index) : p = q := by
  obtain ⟨i, hi, hpi⟩ := List.mem_iff_getElem.mp hp
  obtain ⟨j, hj, hqj⟩ := List.mem_iff_getElem.mp hq
  have hidx := (h.identity i p (by rw [List.getElem?_eq_getElem hi, hpi])).2
  have hjdx := (h.identity j q (by rw [List.getElem?_eq_getElem hj, hqj])).2
  have hij : i = j := by omega
  subst hij
  exact hpi.symm.trans hqj

/-- Numbers below the word size make different identities. -/
theorem eq_of_ofNat {a b : Nat} (ha : a < wordBound) (hb : b < wordBound)
    (h : ProcessId.ofNat a = ProcessId.ofNat b) : a = b := by
  have hval := congrArg (fun pid : ProcessId => pid.val.toNat) h
  simp only [ProcessId.ofNat, UInt32.toNat_ofNat'] at hval
  change a % wordBound = b % wordBound at hval
  rw [Nat.mod_eq_of_lt ha, Nat.mod_eq_of_lt hb] at hval
  exact hval

/-- Every process has an identity of its own. -/
theorem eq_of_pid (h : m.Census ps) (hp : p ∈ ps) (hq : q ∈ ps) (heq : p.pid = q.pid) : p = q := by
  obtain ⟨i, hi, hpi⟩ := List.mem_iff_getElem.mp hp
  obtain ⟨j, hj, hqj⟩ := List.mem_iff_getElem.mp hq
  have hpid := (h.identity i p (by rw [List.getElem?_eq_getElem hi, hpi])).1
  have hqid := (h.identity j q (by rw [List.getElem?_eq_getElem hj, hqj])).1
  have hfew := h.few
  have hij : i + 1 = j + 1 := by
    refine eq_of_ofNat (by omega) (by omega) ?_
    rw [← hpid, ← hqid, heq]
  have hij' : i = j := by omega
  subst hij'
  exact hpi.symm.trans hqj

/-- A process whose identity is in the register is the one registered under it. -/
theorem registered_of_contains (h : m.Census ps) (hp : p ∈ ps)
    (hcontains : m.kernel.registry.contains p.pid = true) : m.Registered p := by
  obtain ⟨q, hq⟩ := Option.isSome_iff_exists.mp hcontains
  have hq' : m.process? p.pid = some q := hq
  obtain ⟨hqp, hmem⟩ := h.registered _ q hq'
  rw [Registered, hq', h.eq_of_pid hmem hp hqp]

/-- No process has the identity that is given out next. -/
theorem pid_ne_nextPid (h : m.Census ps) (hroom : ps.length + 1 < wordBound) (hp : p ∈ ps) :
    p.pid ≠ m.kernel.nextPid := by
  obtain ⟨i, hi, hpi⟩ := List.mem_iff_getElem.mp hp
  have hpid := (h.identity i p (by rw [List.getElem?_eq_getElem hi, hpi])).1
  intro heq
  rw [hpid, h.nextPid] at heq
  have := eq_of_ofNat (by omega) (by omega) heq
  omega

/-- Nobody is registered under the identity that is given out next. -/
theorem process?_nextPid (h : m.Census ps) (hroom : ps.length + 1 < wordBound) :
    m.process? m.kernel.nextPid = none := by
  by_contra hsome
  obtain ⟨q, hq⟩ := Option.ne_none_iff_exists'.mp hsome
  obtain ⟨hqp, hmem⟩ := h.registered _ q hq
  exact h.pid_ne_nextPid hroom hmem hqp

/-- A process that lives is one of the processes made. -/
theorem mem (h : m.Census ps) (hp : m.Registered p) : p ∈ ps := (h.registered _ _ hp).2

/-- The census says nothing of frames, bytes and copies. -/
theorem congr {m' : Machine} (h : m.Census ps) (hregistry : m'.kernel.registry = m.kernel.registry)
    (hnext : m'.kernel.nextPid = m.kernel.nextPid) (hsizes : m'.sizes = m.sizes) :
    m'.Census ps where
  few := h.few
  identity := h.identity
  size_tables := by
    have hsize := congrArg Array.size hsizes
    rw [sizes, sizes, Array.size_map, Array.size_map] at hsize
    exact hsize.trans h.size_tables
  nextPid := hnext.trans h.nextPid
  registered pid p hp := by
    rw [process?, hregistry] at hp
    exact h.registered pid p hp
  nodup_keys := by
    rw [hregistry]
    exact h.nodup_keys
  fits := hsizes ▸ h.fits

end Census

/-- A new page table for one process is none for another. -/
theorem table_withTable_of_ne {m : Machine} {ps : List UserProcess} {p q : UserProcess}
    (h : m.Census ps) (hp : p ∈ ps) (hq : q ∈ ps) (hne : q ≠ p) (t : PageTable) :
    (m.withTable p t).table q = m.table q := by
  rw [table_withTable (h.index_lt hp), if_neg]
  exact fun heq => hne (h.eq_of_index hq hp heq)

theorem table_withTable_self {m : Machine} {ps : List UserProcess} {p : UserProcess}
    (h : m.Census ps) (hp : p ∈ ps) (t : PageTable) : (m.withTable p t).table p = t := by
  rw [table_withTable (h.index_lt hp), if_pos rfl]

/-! ## Changes that soundness does not see -/

namespace Alike

variable {m m' m'' : Machine}

theorem refl (m : Machine) : Alike m m :=
  ⟨rfl, ⟨rfl, fun _ => rfl⟩, rfl, rfl, fun _ => rfl, rfl, rfl⟩

theorem trans (h : Alike m m') (h' : Alike m' m'') : Alike m m'' where
  free := h'.free.trans h.free
  marks := h.marks.trans h'.marks
  registry := h'.registry.trans h.registry
  memory := h'.memory.trans h.memory
  copies key := (h'.copies key).trans (h.copies key)
  nextPid := h'.nextPid.trans h.nextPid
  tables := h'.tables.trans h.tables

theorem symm (h : Alike m m') : Alike m' m where
  free := h.free.symm
  marks := h.marks.symm
  registry := h.registry.symm
  memory := h.memory.symm
  copies key := (h.copies key).symm
  nextPid := h.nextPid.symm
  tables := h.tables.symm

theorem noted (m : Machine) (e : Event) : Alike m (m.noted e) :=
  ⟨rfl, ⟨rfl, fun _ => rfl⟩, rfl, rfl, fun _ => rfl, rfl, rfl⟩

theorem counted (m : Machine) (c : Stats → Stats) : Alike m (m.counted c) :=
  ⟨rfl, ⟨rfl, fun _ => rfl⟩, rfl, rfl, fun _ => rfl, rfl, rfl⟩

theorem withWaiters (m : Machine) (w : WaitRoom) :
    Alike m (m.withFrames { m.kernel.frames with waiters := w }) :=
  ⟨rfl, ⟨rfl, fun _ => rfl⟩, rfl, rfl, fun _ => rfl, rfl, rfl⟩

theorem wakeOne (m : Machine) : Alike m (m.withFrames m.kernel.frames.wakeOne.2) :=
  ⟨rfl, ⟨rfl, fun _ => rfl⟩, rfl, rfl, fun _ => rfl, rfl, rfl⟩

theorem marked {f : FrameNumber} {i : FrameInfo ProcessId} (h : m.frameInfo? f = some i)
    (b : Bool) :
    Alike m (m.withFrames (m.kernel.frames.withInfo f { i with referenced := b })) where
  free := rfl
  marks := Directory.sameButMarks_unmark h b
  registry := rfl
  memory := rfl
  copies _ := rfl
  nextPid := rfl
  tables := rfl

variable (h : Alike m m')
include h

theorem process? (pid : ProcessId) : m'.process? pid = m.process? pid := by
  rw [Machine.process?, h.registry]
  rfl

theorem registered (p : UserProcess) : m'.Registered p ↔ m.Registered p := by
  rw [Registered, h.process?]
  rfl

theorem table (p : UserProcess) : m'.table p = m.table p := by
  rw [Machine.table, h.tables]
  rfl

theorem entryOf? (p : UserProcess) (page : PageNumber) :
    m'.entryOf? p page = m.entryOf? p page := by
  rw [Machine.entryOf?, h.table]
  rfl

theorem storedContent? (p : UserProcess) (page : PageNumber) :
    m'.storedContent? p page = m.storedContent? p page := by
  rw [Machine.storedContent?, h.copies]
  rfl

theorem content? (p : UserProcess) (page : PageNumber) :
    m'.content? p page = m.content? p page := by
  simp only [Machine.content?, h.entryOf?, h.storedContent?, h.memory]

theorem absent {p : UserProcess} {page : PageNumber} {e : PageEntry} (ha : m.Absent p page e) :
    m'.Absent p page e :=
  ⟨(h.registered p).mpr ha.1, (h.entryOf? p page).trans ha.2.1, ha.2.2⟩

/-- The record of a frame is the same but for the mark. -/
theorem frameInfo? {f : FrameNumber} {i : FrameInfo ProcessId} (hi : m.frameInfo? f = some i) :
    ∃ j, m'.frameInfo? f = some j ∧ j.owner = i.owner ∧ j.page = i.page ∧ j.pins = i.pins := by
  have hmarks := h.marks.2 f
  have hi' : m.kernel.frames.directory.get? f = some i := hi
  rw [hi', Option.map_some] at hmarks
  obtain ⟨j, hj, hij⟩ := Option.map_eq_some_iff.mp hmarks.symm
  exact ⟨j, hj, FrameInfo.eq_of_unmarked_eq hij⟩

theorem idle (hm : m.kernel.frames.Valid) : m'.idle = m.idle :=
  h.marks.idle_eq hm.size_le

end Alike

theorem Keeps.alike {m m' : Machine} (h : Alike m m') (pinned : List FrameNumber) :
    Keeps m m' pinned where
  registry pid := h.process? pid
  content p page _ := h.content? p page
  owner f _ i hi := by
    obtain ⟨j, hj, ho, hp, -⟩ := h.frameInfo? hi
    exact ⟨j, hj, ho, hp⟩
  bytes f _ := by rw [h.memory]

theorem Agreement.alike {m m' : Machine} {l : Ledger} (hm : m.Agreement l) (h : Alike m m') :
    m'.Agreement l where
  mapped p page f hp ht := by
    rw [h.table] at ht
    obtain ⟨i, hi, ho, hpage⟩ := hm.mapped p page f ((h.registered p).mp hp) ht
    obtain ⟨j, hj, ho', hpage', -⟩ := h.frameInfo? hi
    exact ⟨j, hj, ho'.trans ho, hpage'.trans hpage⟩
  recorded f j p hj ho hp hloose := by
    obtain ⟨i, hi, ho', hpage, -⟩ := h.symm.frameInfo? hj
    rw [h.table, ← hpage]
    exact hm.recorded f i p hi (ho'.trans ho) ((h.registered p).mp hp) hloose
  owned f j pid hj ho := by
    obtain ⟨i, hi, ho', -⟩ := h.symm.frameInfo? hj
    rw [h.process?]
    exact hm.owned f i pid hi (ho'.trans ho)
  pins f j hj := by
    obtain ⟨i, hi, -, -, hpins⟩ := h.symm.frameInfo? hj
    exact hpins.symm.trans (hm.pins f i hi)
  exists_pinned f hf := by
    obtain ⟨i, hi⟩ := hm.exists_pinned f hf
    obtain ⟨j, hj, -⟩ := h.frameInfo? hi
    exact ⟨j, hj⟩
  unmapped f hf := by
    refine ⟨(hm.unmapped f hf).1, fun p page hp => ?_⟩
    rw [h.table]
    exact (hm.unmapped f hf).2 p page ((h.registered p).mp hp)

/-- Soundness does not see the log, the counters, the clock and the waiters. -/
theorem Sound.alike {m m' : Machine} {l : Ledger} (hm : m.Sound l) (h : Alike m m') :
    m'.Sound l where
  pool := hm.pool.of_info h.free h.marks.1.symm fun f => (h.marks.2 f).symm
  size_memory := by
    rw [h.memory, hm.size_memory]
    exact h.marks.1
  census := hm.census.congr h.registry h.nextPid (by rw [sizes, h.tables]; rfl)
  broken := hm.broken
  agreement := hm.agreement.alike h
  clean p page e f hp he hf hd := by
    rw [h.storedContent?, h.memory]
    rw [h.entryOf?] at he
    exact hm.clean p page e f ((h.registered p).mp hp) he hf hd

/-! ## What soundness says of a single page or frame -/

namespace Sound

variable {m : Machine} {l : Ledger} {p : UserProcess} {f : FrameNumber} {i : FrameInfo ProcessId}

/-- The directory knows the frame of a resident page. -/
theorem info_of_entry (h : m.Sound l) (hp : m.Registered p) {page : PageNumber} {e : PageEntry}
    (he : m.entryOf? p page = some e) (hf : e.frame? = some f) :
    ∃ i, m.frameInfo? f = some i ∧ i.owner = some p.pid ∧ i.page = page := by
  refine h.agreement.mapped p page f hp ?_
  rw [PageTable.translate?, show (m.table p).get? page = some e from he]
  exact hf

/-- A frame that somebody pinned has an owner. -/
theorem owner_of_pinned (h : m.Sound l) (hi : m.frameInfo? f = some i) (hpins : i.pins ≠ 0) :
    i.owner ≠ none :=
  fun hnone => hpins (h.pool.unpinned f i hi hnone)

/-- A frame that a user pinned holds the page on record, as long as its owner lives. -/
theorem entry_of_pinned (h : m.Sound l) (hf : f ∈ l.pinned) (hi : m.frameInfo? f = some i)
    (howner : i.owner = some p.pid) (hp : m.Registered p) :
    ∃ e, m.entryOf? p i.page = some e ∧ e.frame? = some f := by
  have hloose : f ∉ l.loose := fun hm => (h.agreement.unmapped f hm).1 hf
  have ht := h.agreement.recorded f i p hi howner hp hloose
  rw [PageTable.translate?] at ht
  exact Option.bind_eq_some_iff.mp ht

/-- The record of a pinned frame counts its pins. -/
theorem info_of_pinned (h : m.Sound l) (hf : f ∈ l.pinned) :
    ∃ i, m.frameInfo? f = some i ∧ i.pins ≠ 0 ∧ i.owner ≠ none := by
  obtain ⟨i, hi⟩ := h.agreement.exists_pinned f hf
  have hpins := h.agreement.pins f i hi
  have hpos : 0 < l.pinned.count f := List.count_pos_iff.mpr hf
  have hne : i.pins ≠ 0 := by omega
  exact ⟨i, hi, hne, h.owner_of_pinned hi hne⟩

/-- No user keeps a pin on a frame without pins. -/
theorem not_pinned (h : m.Sound l) (hi : m.frameInfo? f = some i) (hpins : i.pins = 0) :
    f ∉ l.pinned ∧ f ∉ l.loose := by
  have heq := h.agreement.pins f i hi
  constructor
  · intro hf
    have : 0 < l.pinned.count f := List.count_pos_iff.mpr hf
    omega
  · intro hf
    have : 0 < l.loose.count f := List.count_pos_iff.mpr hf
    omega

/-- All frames are owned and pinned exactly if none is without a pin. -/
theorem idle_eq_zero_iff (h : m.Sound l) :
    m.idle = 0 ↔ ∀ f i, m.frameInfo? f = some i → i.owner ≠ none ∧ i.pins ≠ 0 := by
  rw [Directory.idle_eq_zero h.pool.size_le]
  exact ⟨fun hall f i hi => ⟨h.owner_of_pinned hi (hall f i hi), hall f i hi⟩,
    fun hall f i hi => (hall f i hi).2⟩

/-- Every frame of the pool has bytes. -/
theorem exists_bytes (h : m.Sound l) (hi : m.frameInfo? f = some i) :
    ∃ content, m.kernel.memory.frames[f.toNat]? = some content := by
  have hlt := FrameTable.lt_of_info? (t := m.kernel.frames) hi
  exact ⟨_, Array.getElem?_eq_getElem (h.size_memory ▸ hlt)⟩

/-- Machines of one size in which the same frames are pinned have the same numbers of pins. -/
theorem pins_eq {m' : Machine} {l' : Ledger} (h : m.Sound l) (h' : m'.Sound l')
    (hsize : m'.kernel.frames.directory.size = m.kernel.frames.directory.size)
    (hpinned : l'.pinned = l.pinned) (hloose : l'.loose = l.loose) (f : FrameNumber) :
    (m'.frameInfo? f).map (·.pins) = (m.frameInfo? f).map (·.pins) := by
  have hnone : m'.frameInfo? f = none ↔ m.frameInfo? f = none := by
    simp only [frameInfo?, FrameTable.info?, Directory.get?, Array.getElem?_eq_none_iff]
    exact Eq.to_iff (congrArg (· ≤ f.toNat) hsize)
  cases hi : m.frameInfo? f with
  | none => rw [hnone.mpr hi]
  | some i =>
    cases hj : m'.frameInfo? f with
    | none => rw [hnone.mp hj] at hi; contradiction
    | some j =>
      rw [Option.map_some, Option.map_some, h.agreement.pins f i hi, h'.agreement.pins f j hj,
        hpinned, hloose]

end Sound

end Machine

end DemandPaging
