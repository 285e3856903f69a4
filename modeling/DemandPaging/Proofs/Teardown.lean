import DemandPaging.Proofs.Turns

/-!
# The exact effect of a teardown

A process none of whose frames is pinned is torn down without a violation, and `Machine.TornDown`
says of every part of the machine what becomes of it: what belongs to the process goes, and all the
rest stays as it is. Frames are given back one after the other, so the effect on frames, entries and
waiters is proved by induction on the list of the frames that the process owns (`Machine.Emptied`).
-/

namespace DemandPaging

open Machine

/-! ## Entries -/

/-- The entry of a page that is not resident any more, if it was. -/
def PageEntry.dropped (e : PageEntry) : PageEntry := if e.valid then e.evicted else e

theorem PageEntry.dropped_dropped (e : PageEntry) : e.dropped.dropped = e.dropped := by
  unfold dropped
  by_cases hv : e.valid = true
  · rw [if_pos hv, if_neg]
    simp [evicted]
  · rw [if_neg hv, if_neg hv]

theorem PageTable.get?_invalidate (t : PageTable) (page q : PageNumber) :
    (t.invalidate page).2.get? q =
      if q = page then (t.get? page).map PageEntry.dropped else t.get? q := by
  rcases t.valid_cases page with ⟨e, he, hvalid⟩ | hinvalid
  · rw [invalidate_of_valid he hvalid, get?_setEntry, he, Option.map_some, Option.map_some,
      PageEntry.dropped, if_pos hvalid]
  · have hdropped : (t.get? page).map PageEntry.dropped = t.get? page := by
      cases he : t.get? page with
      | none => rfl
      | some e => rw [Option.map_some, PageEntry.dropped, hinvalid e he, if_neg nofun]
    rw [invalidate_of_invalid hinvalid, hdropped]
    split
    · next hq => rw [hq]
    · rfl

namespace Machine

variable {m m' : Machine} {l : Ledger} {p q : UserProcess} {f : FrameNumber}
  {i : FrameInfo ProcessId} {page : PageNumber}

/-! ## Frames are given back -/

/-- The frames `owned` of the process are free again, and the pages that lay there are not resident.
A waiter was woken for each. -/
structure Emptied (m m' : Machine) (ps : List UserProcess) (p : UserProcess)
    (owned : List (FrameNumber × PageNumber)) : Prop where
  kernel : m'.kernel = { m.kernel with frames := m'.kernel.frames }
  free : m'.kernel.frames.free.stack =
    (owned.map Prod.fst).reverse ++ m.kernel.frames.free.stack
  clock : m'.kernel.frames.clock = m.kernel.frames.clock
  waiters : m'.waiters = m.waiters.wakeMany owned.length
  info : ∀ f, m'.frameInfo? f = if f ∈ owned.map Prod.fst then some .free else m.frameInfo? f
  entry : ∀ page, m'.entryOf? p page =
    if page ∈ owned.map Prod.snd then (m.entryOf? p page).map PageEntry.dropped
    else m.entryOf? p page
  tables : ∀ q ∈ ps, q ≠ p → m'.table q = m.table q

theorem Emptied.nil (m : Machine) (ps : List UserProcess) (p : UserProcess) :
    m.Emptied m ps p [] where
  kernel := rfl
  free := rfl
  clock := rfl
  waiters := rfl
  info _ := (if_neg List.not_mem_nil).symm
  entry _ := (if_neg List.not_mem_nil).symm
  tables _ _ _ := rfl

theorem entryOf?_forgot (hc : m.Census l.processes) (hp : p ∈ l.processes)
    (page page' : PageNumber) : (m.forgot p page).entryOf? p page' =
      if page' = page then (m.entryOf? p page).map PageEntry.dropped else m.entryOf? p page' := by
  rw [entryOf?, forgot, table_withTable_self hc hp, PageTable.get?_invalidate]
  rfl

/-- One frame is given back before the others. -/
theorem Emptied.cons {owned : List (FrameNumber × PageNumber)}
    (h : (m.returned p page f).Emptied m' l.processes p owned) (hc : m.Census l.processes)
    (hp : p ∈ l.processes) (hi : m.frameInfo? f = some i) :
    m.Emptied m' l.processes p ((f, page) :: owned) where
  kernel := h.kernel
  free := by
    rw [h.free, List.map_cons, List.reverse_cons, List.append_assoc]
    rfl
  clock := h.clock
  waiters := h.waiters
  info g := by
    rw [h.info, frameInfo?_returned hi, List.map_cons]
    simp only [List.mem_cons]
    by_cases hg : g = f
    · rw [if_pos hg, ite_self, if_pos (Or.inl hg)]
    · simp only [hg, if_false, false_or]
  entry page' := by
    rw [h.entry, List.map_cons]
    rw [show (m.returned p page f).entryOf? p page' = (m.forgot p page).entryOf? p page' from rfl,
      entryOf?_forgot hc hp]
    simp only [List.mem_cons]
    by_cases hpage : page' = page
    · rw [if_pos hpage, if_pos (Or.inl hpage), Option.map_map, hpage]
      have hdropped : PageEntry.dropped ∘ PageEntry.dropped = PageEntry.dropped :=
        funext PageEntry.dropped_dropped
      rw [hdropped, ite_self]
    · simp only [hpage, if_false, false_or]
  tables q hq hne := (h.tables q hq hne).trans (table_withTable_of_ne hc hp hq hne _)

/-- If the pages given back are those that are resident, every resident page loses its frame. -/
theorem Emptied.entry_eq {ps : List UserProcess} {owned : List (FrameNumber × PageNumber)}
    (h : m.Emptied m' ps p owned)
    (howned : ∀ page f, (m.table p).translate? page = some f → (f, page) ∈ owned)
    (page : PageNumber) : m'.entryOf? p page = (m.entryOf? p page).map PageEntry.dropped := by
  rw [h.entry]
  split
  · rfl
  · next hpage =>
    cases he : m.entryOf? p page with
    | none => rfl
    | some e =>
      rw [Option.map_some, PageEntry.dropped, if_neg]
      intro hv
      obtain ⟨f, hf⟩ := PageEntry.exists_frame? hv
      have ht : (m.table p).translate? page = some f := by
        rw [translate?_table, he, Option.bind_some, hf]
      exact hpage (List.mem_map.mpr ⟨(f, page), howned page f ht, rfl⟩)

/-! ## The teardown -/

/-- What a teardown of `p` that ends without a violation makes of every part of the machine. The
frames `freed` are those that `p` owned. -/
structure TornDown (m m' : Machine) (ps : List UserProcess) (p : UserProcess)
    (freed : List FrameNumber) : Prop where
  /-- Counters, bytes, configuration and the next identity stay; of the register and of the store
  only what belongs to `p` goes. -/
  kernel : m'.kernel = { m.kernel with
    registry := m.kernel.registry.erase p.pid
    swap := m.kernel.swap.discard p.pid
    frames := m'.kernel.frames }
  /-- The frames are pushed in their order, so the last of them is on top. -/
  free : m'.kernel.frames.free.stack = freed.reverse ++ m.kernel.frames.free.stack
  clock : m'.kernel.frames.clock = m.kernel.frames.clock
  info : ∀ f, m'.frameInfo? f = if f ∈ freed then some .free else m.frameInfo? f
  /-- As many waiters are woken as frames are freed, the oldest first. -/
  queue : m'.waiters.queue.waiting = m.waiters.queue.waiting.drop freed.length
  parkers : ∀ t, m'.waiters.parkers[t]? =
    if t ∈ m.waiters.queue.waiting.take freed.length then
      m.waiters.parkers[t]?.map Parker.unpark
    else m.waiters.parkers[t]?
  entry : ∀ page, m'.entryOf? p page = (m.entryOf? p page).map PageEntry.dropped
  tables : ∀ q ∈ ps, q ≠ p → m'.table q = m.table q

/-- After a teardown no frame belongs to the process. -/
theorem TornDown.owner_ne {ps : List UserProcess} {freed : List FrameNumber}
    (h : m.TornDown m' ps p freed)
    (hfreed : ∀ f i, m.frameInfo? f = some i → i.owner = some p.pid → f ∈ freed)
    (hi : m'.frameInfo? f = some i) : i.owner ≠ some p.pid := by
  intro howner
  rw [h.info] at hi
  split at hi
  · rw [Option.some.injEq] at hi
    rw [← hi] at howner
    contradiction
  · next hf => exact hf (hfreed f i hi howner)

end Machine

theorem Registry.erase_erase (r : Registry) (pid : ProcessId) :
    (r.erase pid).erase pid = r.erase pid := by
  simp only [erase, List.filter_filter, Bool.and_self]

theorem Swap.discard_discard (s : Swap) (pid : ProcessId) :
    (s.discard pid).discard pid = s.discard pid := by
  simp only [discard, List.filter_filter, Bool.and_self]

namespace Action

variable {m : Machine} {l : Ledger} {p : UserProcess}

/-- Frames without pins can all be given back. -/
theorem run_giveBack_all {owned : List (FrameNumber × PageNumber)} (h : m.Sound l)
    (hp : p ∈ l.processes) (hdead : m.process? p.pid = none) (hnodup : (owned.map Prod.fst).Nodup)
    (howned : ∀ x ∈ owned,
      ∃ i, m.frameInfo? x.1 = some i ∧ i.owner = some p.pid ∧ i.pins = 0) :
    ∃ m', (giveBack p owned).run m = .ok () m' ∧ m.Emptied m' l.processes p owned := by
  induction owned generalizing m with
  | nil => exact ⟨m, rfl, .nil m _ p⟩
  | cons x owned ih =>
    obtain ⟨f, page⟩ := x
    obtain ⟨i, hi, howner, hpins⟩ := howned (f, page) List.mem_cons_self
    rw [List.map_cons, List.nodup_cons] at hnodup
    have howned' : ∀ x ∈ owned, ∃ i, (m.returned p page f).frameInfo? x.1 = some i ∧
        i.owner = some p.pid ∧ i.pins = 0 := by
      intro x hx
      rw [frameInfo?_returned_of_mem hi hnodup.1 hx]
      exact howned x (List.mem_cons_of_mem _ hx)
    obtain ⟨m', hrun, hemptied⟩ :=
      ih (h.returned hp hdead hi howner hpins) hdead hnodup.2 howned'
    refine ⟨m', ?_, hemptied.cons h.census hp hi⟩
    rw [run_giveBack_cons h hi howner, if_pos hpins, hrun]

/-- **A process without pinned frames is torn down**, and `TornDown` is all that happens. -/
theorem run_tearDown (h : m.Sound l) (hp : p ∈ l.processes)
    (hmapped : ∀ page f, (m.table p).translate? page = some f →
      ∃ i, m.frameInfo? f = some i ∧ i.owner = some p.pid ∧ i.page = page)
    (hunpinned : ∀ f i, m.frameInfo? f = some i → i.owner = some p.pid → i.pins = 0) :
    ∃ m', (tearDown p).run m = .ok () m' ∧
      m.TornDown m' l.processes p ((m.kernel.frames.ownedBy p.pid).map Prod.fst) := by
  let owned := m.kernel.frames.ownedBy p.pid
  have hmem : ∀ f page, (f, page) ∈ owned ↔
      ∃ i, m.frameInfo? f = some i ∧ i.owner = some p.pid ∧ i.page = page :=
    fun f page => Directory.mem_ownedBy h.pool.size_le
  have hdead := process?_without_self m p.pid
  have hnodup : (owned.map Prod.fst).Nodup := Directory.nodup_ownedBy h.pool.size_le p.pid
  have howned : ∀ x ∈ owned,
      ∃ i, (m.without p.pid).frameInfo? x.1 = some i ∧ i.owner = some p.pid ∧ i.pins = 0 := by
    intro x hx
    obtain ⟨i, hi, howner, -⟩ := (hmem x.1 x.2).mp hx
    exact ⟨i, hi, howner, hunpinned x.1 i hi howner⟩
  have hsound₀ : (m.without p.pid).Sound { l with broken := p.pid :: l.broken } := h.without hp
  obtain ⟨m₁, hrun, hemptied⟩ := run_giveBack_all hsound₀ hp hdead hnodup howned
  have hentry : ∀ page, m₁.entryOf? p page = (m.entryOf? p page).map PageEntry.dropped :=
    hemptied.entry_eq fun page f ht => (hmem f page).mpr (hmapped page f ht)
  have hlength : (owned.map Prod.fst).length = owned.length := List.length_map ..
  refine ⟨(m₁.withSwap (m₁.kernel.swap.discard p.pid)).noted (.tornDown p.pid owned.length),
    ?_, ?_, hemptied.free, hemptied.clock, hemptied.info, ?_, fun t => ?_, hentry,
    hemptied.tables⟩
  · have hgiven : (giveBack p (m.kernel.frames.ownedBy p.pid)).run (m.without p.pid) =
        .ok () m₁ := hrun
    rw [run_tearDown_eq]
    simp only [EStateM.run_bind, hgiven, EStateM.run_get, run_setSwap, run_note]
    rfl
  · rw [kernel_noted, kernel_withSwap, hemptied.kernel]
    rfl
  · change m₁.waiters.queue.waiting = _
    rw [hemptied.waiters, WaitRoom.queue_wakeMany, hlength]
    rfl
  · change m₁.waiters.parkers[t]? = _
    rw [hemptied.waiters, WaitRoom.parkers_wakeMany, hlength]
    rfl

/-- A teardown that finds nothing to do is noted. -/
theorem run_tearDown_again (howned : m.kernel.frames.ownedBy p.pid = [])
    (hregistry : m.kernel.registry.erase p.pid = m.kernel.registry)
    (hswap : m.kernel.swap.discard p.pid = m.kernel.swap) :
    (tearDown p).run m = .ok () (m.noted (.tornDown p.pid 0)) := by
  have hgone : m.without p.pid = m := by rw [without, hregistry]
  have hsame : m.withSwap m.kernel.swap = m := rfl
  rw [run_tearDown_eq, howned, hgone]
  simp only [giveBack, EStateM.run_bind, EStateM.run_pure, EStateM.run_get, run_setSwap, run_note,
    hswap, hsame, List.length_nil]

end Action

namespace System

variable {s : System} {p : UserProcess}

/-- **The exact effect of a teardown.** In every system that moves lead to from a machine that has
just started, a process none of whose frames is pinned is torn down without a violation. Its frames
become free in ascending order, its resident pages lose their frames, its copies go, and as many
waiters are woken as frames were freed; nothing else changes. A second teardown changes nothing. -/
theorem torn_down_exactly {config : Config} {swap : Swap} {m : Machine}
    (hboot : Machine.boot config swap = .ok m) (hs : Reachable HasRoom (ofMachine m) s) {i : Nat}
    (hp : s.processes[i]? = some p)
    (hunpinned : ∀ f info, s.machine.frameInfo? f = some info → info.owner = some p.pid →
      info.pins = 0) :
    ∃ (m' : Machine) (freed : List FrameNumber),
      s.move (.release i) = (some (.returned .done), { s with machine := m' }) ∧
      (freed.Pairwise fun f g => f.toNat < g.toNat) ∧
      (∀ f, f ∈ freed ↔ ∃ info, s.machine.frameInfo? f = some info ∧ info.owner = some p.pid) ∧
      s.machine.TornDown m' s.processes p freed ∧
      { s with machine := m' }.move (.release i) =
        (some (.returned .done), { s with machine := m'.noted (.tornDown p.pid 0) }) := by
  obtain ⟨loose, broken, hsound⟩ := hs.sound (sound_boot hboot)
  have hmem := List.mem_of_getElem? hp
  have hsize := hsound.machine.pool.size_le
  have hmapped : ∀ page f, (s.machine.table p).translate? page = some f →
      ∃ i, s.machine.frameInfo? f = some i ∧ i.owner = some p.pid ∧ i.page = page := by
    intro page f ht
    rcases hsound.machine.census.dead_or_registered hmem with hdead | hreg
    · exact ownerOf?_eq_some.mp (hs.backed hboot p hmem hdead page f ht)
    · exact hsound.machine.agreement.mapped p page f hreg ht
  obtain ⟨m', hrun, htorn⟩ := Action.run_tearDown hsound.machine hmem hmapped hunpinned
  have hfreed : ∀ f, f ∈ (s.machine.kernel.frames.ownedBy p.pid).map Prod.fst ↔
      ∃ info, s.machine.frameInfo? f = some info ∧ info.owner = some p.pid :=
    fun f => Directory.mem_fst_ownedBy hsize
  have hmove : s.move (.release i) = (some (.returned .done), { s with machine := m' }) := by
    simp only [move, hp, perform, hrun]
  refine ⟨m', _, hmove, Directory.ascending_ownedBy hsize p.pid, hfreed, htorn, ?_⟩
  have hnobody : m'.kernel.frames.ownedBy p.pid = [] := by
    rw [List.eq_nil_iff_forall_not_mem]
    rintro ⟨f, page⟩ hpage
    have hsize' : m'.kernel.frames.directory.size ≤ wordBound := by
      obtain ⟨loose', hsound'⟩ := (moved hsound (show s.HasRoom (.release i) from trivial)).sound
      rw [after, hmove] at hsound'
      exact hsound'.machine.pool.size_le
    obtain ⟨info, hi, howner, -⟩ := (Directory.mem_ownedBy hsize').mp hpage
    exact htorn.owner_ne (fun g info' hg ho => (hfreed g).mpr ⟨info', hg, ho⟩) hi howner
  have hagain := Action.run_tearDown_again hnobody
    (by rw [htorn.kernel]; exact Registry.erase_erase ..)
    (by rw [htorn.kernel]; exact Swap.discard_discard ..)
  simp only [move, hp, perform, hagain]

/-- A system with one frame, in which the page of the only process lies. -/
def resident : System := (ofMachine (fresh 1)).run
  [.spawn (.zeroes "only" 1) [] .demand, .step 0, .request 0 (.fault ⟨0⟩), .step 0, .step 0, .step 0]

/-- The frame is free after the teardown. -/
theorem torn_down_exactly_resident : ∃ p m' freed,
    resident.move (.release 0) = (some (.returned .done), { resident with machine := m' }) ∧
      FrameNumber.ofNat 0 ∈ freed ∧
      resident.machine.TornDown m' resident.processes p freed := by
  have hreach : Reachable HasRoom (ofMachine (fresh 1)) resident := Reachable.start.run (by decide)
  let p := resident.processes.head (List.cons_ne_nil _ _)
  obtain ⟨i, hi, howner, hpins⟩ : ∃ i, resident.machine.frameInfo? ⟨0⟩ = some i ∧
      i.owner = some p.pid ∧ i.pins = 0 := ⟨_, rfl, rfl, rfl⟩
  have hunpinned : ∀ f info, resident.machine.frameInfo? f = some info →
      info.owner = some p.pid → info.pins = 0 := by
    intro f info hf _
    have hlt : f.toNat < 1 := FrameTable.lt_of_info? hf
    have hzero : f = ⟨0⟩ := FrameNumber.toNat_inj.mp (show f.toNat = 0 by omega)
    rw [hzero, hi, Option.some.injEq] at hf
    rw [← hf, hpins]
  obtain ⟨m', freed, hmove, -, hfreed, htorn, -⟩ :=
    @torn_down_exactly resident p ⟨1, 1, true⟩ (.empty none) (fresh 1) rfl hreach 0 rfl hunpinned
  exact ⟨p, m', freed, hmove, (hfreed _).mpr ⟨i, hi, howner⟩, htorn⟩

end System

end DemandPaging
