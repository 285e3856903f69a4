import DemandPaging.Proofs.Attributes
import DemandPaging.Proofs.LastFrame
import DemandPaging.Proofs.Placement

/-!
# When calls queue up

An attempt to get at a page queues its call up exactly if the page may be accessed, is not resident,
and every frame is owned and pinned. Then nothing else happens: the free list was looked at, the
clock went round and found no frame that it may choose, and so all is as it was but the queue and
the count of the calls that joined it.

The way through an eviction never ends in the queue. What an eviction puts on the free list is what
the allocation behind it takes off again. So if there is a frame that is free or not pinned, the page
is brought in, unless the store or the executable fails (`Machine.Unfailing`).
-/

namespace DemandPaging

open Machine

/-- What a store takes does not change which pages it can read. -/
theorem Swap.unreadable_of_store {s s' : Swap} {key : SwapKey} {bytes : Bytes}
    (h : s.store key bytes = .ok s') : s'.unreadable = s.unreadable := by
  obtain ⟨p, rfl, -⟩ := of_store h
  rfl

namespace Machine

variable {m m' m₁ : Machine} {l : Ledger} {p : UserProcess} {page : PageNumber} {e : PageEntry}
  {f : FrameNumber} {kind : AccessKind}

/-- The process may access the page in the given way, and the page has to be brought in for it. -/
structure Misses (m : Machine) (p : UserProcess) (page : PageNumber) (kind : AccessKind) : Prop where
  registered : m.Registered p
  contains : p.contains page = true
  permitted : kind = .write → m.readOnly? p page ≠ some true
  absent : (m.table p).translate? page = none

/-- Every frame is owned and pinned. -/
def Exhausted (m : Machine) : Prop :=
  ∀ f i, m.frameInfo? f = some i → i.owner ≠ none ∧ i.pins ≠ 0

/-- A parker was added, which is the last in the queue, and one more call is counted that queued up.
Apart from the log that is all that changed. -/
structure Parked (m m' : Machine) : Prop where
  kernel : m'.kernel = { m.kernel with
    frames := { m.kernel.frames with
      waiters := m.waiters.addParker.enqueue m.waiters.parkers.size }
    stats := { m.kernel.stats with blocks := m.kernel.stats.blocks + 1 } }
  tables : m'.tables = m.tables

/-- Nothing fails on the way of the page into a frame: its content can be had, and if there is no free
frame, the store takes the page that makes room for it. -/
structure Unfailing (m : Machine) (p : UserProcess) (page : PageNumber) : Prop where
  loadable : m.Loadable p page
  clears : m.kernel.frames.free.stack = [] → ∀ f, m.kernel.frames.selectVictim.1 = some f →
    m.Clears f

/-- If every frame is owned and pinned, the free list is empty and the clock chooses nothing. -/
theorem Sound.pool_of_exhausted (h : m.Sound l) (hx : m.Exhausted) :
    m.kernel.frames.free.stack = [] ∧
      m.kernel.frames.selectVictim = (none, m.kernel.frames) := by
  constructor
  · refine List.eq_nil_iff_forall_not_mem.mpr fun f hmem => ?_
    obtain ⟨i, hi, hnone⟩ := (h.pool.mem_stack f).mp hmem
    exact (hx f i hi).1 hnone
  · cases hvictim : m.kernel.frames.selectVictim with
    | mk victim t =>
      cases victim with
      | none => rw [(FrameTable.selectVictim_none hvictim).1]
      | some f =>
        obtain ⟨⟨i, hi, -, hpins⟩, -⟩ := FrameTable.selectVictim_some hvictim
        exact absurd hpins (hx f i hi).2

theorem Granted.unreadable (h : m.Granted m' p page f) :
    m'.kernel.swap.unreadable = m.kernel.swap.unreadable := by
  cases h with
  | free stack eq =>
    rw [eq]
    rfl
  | @evicted t ev m₁ q page' e stack victim vacated eq =>
    rw [eq]
    change m₁.kernel.swap.unreadable = _
    cases hd : e.dirty with
    | true =>
      obtain ⟨content, -, hstore⟩ := vacated.saved hd
      exact Swap.unreadable_of_store hstore
    | false =>
      rw [vacated.spared hd]
      rfl

/-- Getting a frame for a page leaves the content of the page alone. -/
theorem Granted.loadable {pinned : List FrameNumber} (h : m.Granted m' p page f)
    (hkeeps : Keeps m m' pinned) (ha : m.Absent p page e) (ha' : m'.Absent p page e)
    (hload : m.Loadable p page) : m'.Loadable p page where
  readable := h.unreadable ▸ hload.readable
  content := by
    have hcontent := hkeeps.content p page ha.1
    rw [content?_of_absent ha'.2.1 ha'.2.2, content?_of_absent ha.2.1 ha.2.2] at hcontent
    rw [hcontent]
    exact hload.content

end Machine

namespace Action

variable {m m' m₁ : Machine} {l : Ledger} {p : UserProcess} {page : PageNumber} {e : PageEntry}
  {kind : AccessKind} {f : FrameNumber} {i : FrameInfo ProcessId} {t : Ticket}

/-! ## Attempts that queue up -/

/-- A miss queues up if every frame is owned and pinned, and does nothing else. -/
theorem run_serveMiss_of_exhausted (h : m.Sound l) (hx : m.Exhausted) (p : UserProcess)
    (page : PageNumber) :
    ∃ m', m.Parked m' ∧ (serveMiss p page).run m = .ok (.queued m.waiters.parkers.size) m' := by
  obtain ⟨hfree, hvictim⟩ := h.pool_of_exhausted hx
  simp only [serveMiss, EStateM.run_bind, run_note]
  set m₀ := (m.noted (.faultMiss p.pid page)).noted (.faultAcquire p.pid page)
  have hnil : (allocate p.pid page).run m₀ = .ok none m₀ :=
    run_allocate_of_nil (m := m₀) hfree p.pid page
  have hselect : selectVictim.run m₀ = .ok none m₀ := run_selectVictim_none (m := m₀) hvictim
  have hacquire : (acquireFrame p page).run m₀ = .ok none m₀ := by
    simp only [acquireFrame, EStateM.run_bind, hnil, hselect, EStateM.run_pure]
  let m' := ((m₀.withFrames m₀.kernel.frames.wait.2).counted
    fun s => { s with blocks := s.blocks + 1 }).noted (.waiting p.pid page)
  refine ⟨m', ⟨rfl, rfl⟩, ?_⟩
  simp only [hacquire, EStateM.run_bind, run_queueUp, EStateM.run_pure]
  rfl

/-- An attempt that queued up was permitted, and its page was not resident. -/
theorem of_run_resolve_queued (h : (resolve p page kind).run m = .ok (.queued t) m') :
    m.kernel.registry.contains p.pid = true ∧ (∃ e, m.entryOf? p page = some e ∧
      (kind.isWrite && e.readOnly) = false ∧ e.frame? = none) ∧
    (serveMiss p page).run m = .ok (.queued t) m' := by
  simp only [resolve, run_bind_eq_ok] at h
  obtain ⟨e, m₁, hentry, h⟩ := h
  obtain ⟨hcontains, he, hkind, rfl⟩ := of_run_permittedEntry hentry
  split at h
  · simp only [run_bind_eq_ok] at h
    obtain ⟨u₁, m₂, -, u₂, m₃, -, h⟩ := h
    cases h
  · next hnone => exact ⟨hcontains, ⟨e, he, hkind, hnone⟩, h⟩

/-! ## Evictions -/

/-- **The frame of a victim can be had**: an allocation after an eviction takes it. -/
theorem exists_allocate_of_evict (h : m.Sound l) (hevict : (evict f).run m = .ok () m₁)
    (owner : ProcessId) (page : PageNumber) :
    ∃ m', (allocate owner page).run m₁ = .ok (some f) m' := by
  obtain ⟨q, page', e, hvacated⟩ := of_run_evict hevict
  obtain ⟨i, pid, hi, -, howner, -⟩ := hvacated.info
  have hframes : m₁.kernel.frames = m.kernel.frames.takeBack f := by rw [hvacated.kernel]
  have hvalid : m₁.kernel.frames.Valid := by
    rw [hframes]
    exact h.pool.takeBack hi (howner ▸ Option.some_ne_none pid)
  have hstack : m₁.kernel.frames.free.stack = f :: m.kernel.frames.free.stack := by
    rw [hframes]
    rfl
  exact ⟨_, run_allocate_of_cons hvalid hstack owner page⟩

/-! ## Attempts that find a frame -/

/-- A page whose content can be had is brought into the frame that was reserved for it, if the number
of the frame fits an entry. -/
theorem exists_bringIn (h : m.Sound { l with loose := f :: l.loose }) (ha : m.Absent p page e)
    (hi : m.frameInfo? f = some i) (hload : m.Loadable p page) (hf : f.toNat ≤ maxEntryFrame) :
    ∃ m', (bringIn p page f).run m = .ok () m' := by
  obtain ⟨old, hold⟩ := h.exists_bytes hi
  set m₀ := m.noted (.faultPopulate p.pid page f)
  have hold₀ : m₀.kernel.memory.frames[f.toNat]? = some old := hold
  have hload₀ : m₀.Loadable p page := ⟨hload.readable, hload.content⟩
  have hnote : (note (.faultPopulate p.pid page f)).run m = .ok () m₀ := rfl
  obtain ⟨v, hv⟩ : ∃ v, PageEntry.frameBits? f = some v := ⟨_, if_pos hf⟩
  rcases run_populate p page hold₀ with
    ⟨content, m₁, -, halike, hframes, -, hpopulate⟩ | ⟨_, -, hnone, -⟩ | ⟨_, -, hnone, -⟩
  · set m₂ := m₁.noted (.faultInstall p.pid page)
    have hnote₂ : (note (.faultInstall p.pid page)).run m₁ = .ok () m₂ := rfl
    have ha₂ : m₂.Absent p page e := (halike.trans (.noted m₁ _)).absent ha
    have hinstall := run_install_of_bits ha₂ hv m.kernel.config.referenceOnInstall
    have hi₃ : (m₂.withEntry p page
        (.resident v e.readOnly m.kernel.config.referenceOnInstall)).frameInfo? f = some i :=
      (congrArg (·.info? f) hframes).trans hi
    simp only [bringIn, EStateM.run_bind, EStateM.run_get, hnote, run_orGiveBack, hpopulate, hnote₂,
      hinstall, run_setReferenced hi₃, run_count, run_note]
    exact ⟨_, rfl⟩
  · exact absurd hload₀ hnone
  · exact absurd hload₀ hnone

/-- **A miss for which there is a frame.** The page is brought in, or the free list was empty, and the
store does not take the page that lies in the frame that the clock has chosen. -/
theorem serveMiss_of_loadable (h : m.Sound l) (hbroken : l.broken = []) (ha : m.Absent p page e)
    (hload : m.Loadable p page)
    (hframes : m.kernel.frames.directory.size ≤ maxEntryFrame + 1) (hidle : m.idle ≠ 0) :
    (∃ f m', (serveMiss p page).run m = .ok (.pinned f) m') ∨
    ∃ c f m', m.kernel.frames.free.stack = [] ∧ m.Chosen m' f ∧ ¬ m.Clears f ∧
      (serveMiss p page).run m = .error (.error (.swap (.full c))) m' := by
  simp only [serveMiss, EStateM.run_bind, run_note]
  set m₀ := (m.noted (.faultMiss p.pid page)).noted (.faultAcquire p.pid page)
  have hswept : m.Swept m₀ := ((Swept.refl m).noted _).noted _
  have ha₀ : m₀.Absent p page e := hswept.alike.absent ha
  have hacquire := acquireFrame_spec (h.alike hswept.alike) ha₀
  cases hrun : (acquireFrame p page).run m₀ with
  | error stop m₁ =>
    rw [hrun] at hacquire
    cases hacquire with
    | failed cause chosen clears empty =>
      cases stop with
      | error err =>
        obtain ⟨c, rfl⟩ := cause
        exact Or.inr ⟨c, _, m₁, empty, ⟨chosen.choice, chosen.kernel, chosen.tables⟩,
          fun hclears => clears _ rfl (hswept.clears hclears), rfl⟩
      | violation v =>
        obtain ⟨f, pid, horphaned, -, -⟩ := cause.of_alike hswept.alike
        exact absurd horphaned (h.not_orphaned hbroken f pid)
  | ok result m₁ =>
    rw [hrun] at hacquire
    cases hacquire with
    | refused idle => exact absurd idle hidle
    | @granted f m₁ sound keeps orderly absent reserved idle waiters =>
      obtain ⟨i, hi, -⟩ := reserved.info
      have ha₁ := absent p page e ha₀
      have hload₁ := (of_run_acquireFrame hrun).loadable keeps ha₀ ha₁
        ⟨hload.readable, hload.content⟩
      have hlt : f.toNat < m.kernel.frames.directory.size := by
        have hlt := FrameTable.lt_of_info? hi
        rwa [orderly.size] at hlt
      obtain ⟨m₂, hbring⟩ := exists_bringIn sound ha₁ hi hload₁ (by omega)
      simp only [EStateM.run_bind, hbring, EStateM.run_pure]
      exact Or.inl ⟨f, m₂, rfl⟩

/-- With a frame to be had, a miss is served unless the store or the executable fails. -/
theorem exists_serveMiss_of_unfailing (h : m.Sound l) (hbroken : l.broken = [])
    (ha : m.Absent p page e) (hm : m.Unfailing p page)
    (hframes : m.kernel.frames.directory.size ≤ maxEntryFrame + 1) (hidle : m.idle ≠ 0) :
    ∃ f m', (serveMiss p page).run m = .ok (.pinned f) m' := by
  rcases serveMiss_of_loadable h hbroken ha hm.loadable hframes hidle with
    hserved | ⟨c, f, m', hempty, hchosen, hclears, -⟩
  · exact hserved
  · exact absurd (hm.clears hempty f (congrArg Prod.fst hchosen.choice)) hclears

end Action

namespace Call

variable {c : Call} {m m₁ : Machine}

/-- The wake-up that an attempt takes before it begins has nothing to do with frames and pages. -/
theorem Ready.exhausted_iff (h : c.Ready m m₁) : m₁.Exhausted ↔ m.Exhausted := by
  cases h <;> exact Iff.rfl

theorem Ready.unfailing (h : c.Ready m m₁) {p : UserProcess} {page : PageNumber}
    (hm : m.Unfailing p page) : m₁.Unfailing p page := by
  cases h with
  | seeking => exact hm
  | woken => exact ⟨⟨hm.loadable.readable, hm.loadable.content⟩, hm.clears⟩

end Call

namespace System

variable {s : System} {config : Config} {swap : Swap} {m : Machine} {p : UserProcess}
  {page : PageNumber} {kind : AccessKind}

/-- What a miss is in terms of entries. -/
theorem Marked.misses_iff (hm : s.Marked) (hp : p ∈ s.processes) :
    s.machine.Misses p page kind ↔ s.machine.Registered p ∧
      ∃ e, s.machine.entryOf? p page = some e ∧ (kind.isWrite && e.readOnly) = false ∧
        e.frame? = none := by
  have hpermitted : ∀ e, s.machine.entryOf? p page = some e →
      ((kind.isWrite && e.readOnly) = false ↔
        (kind = .write → s.machine.readOnly? p page ≠ some true)) := by
    intro e he
    rw [readOnly?, he, Option.map_some]
    cases kind <;> simp [AccessKind.isWrite]
  constructor
  · intro h
    obtain ⟨e, he⟩ := hm.exists_entry hp h.contains
    have habsent := h.absent
    rw [translate?_table, he, Option.bind_some] at habsent
    exact ⟨h.registered, e, he, (hpermitted e he).mpr h.permitted, habsent⟩
  · rintro ⟨hreg, e, he, hkind, hf⟩
    obtain ⟨source, hsource, -⟩ := hm.exists_source hp he
    refine ⟨hreg, ?_, (hpermitted e he).mp hkind, by rw [translate?_table, he, Option.bind_some, hf]⟩
    by_contra hout
    have hnone : p.layout.source? page = none := if_neg hout
    rw [hnone] at hsource
    contradiction

/-- **A call queues up exactly when it must.** In every system that is reached without a teardown that
stopped half way, let a call that is awake want a page, so that its next step is an attempt to get
at the page. The attempt queues the call up if and only if the process may access the page, the page
is not resident, and every frame is owned and pinned. All that happens then is that a parker is put
behind the queue and counted. A frame that an eviction frees can always be had by the allocation that
follows. If there is a frame that is free or not pinned, and neither the store nor the executable fails,
the page is brought in: a frame holds it, with a pin for the call. -/
theorem attempt_queues_iff (hboot : Machine.boot config swap = .ok m)
    (hframes : config.frameCount ≤ maxEntryFrame + 1) (hs : History HasRoom (ofMachine m) s [])
    {c : Call} (hc : c ∈ s.calls) (hwanted : c.wanted? = some (page, kind))
    (hframe : c.frame? = none) (hundo : ∀ e, c.stage ≠ .undoing e)
    (hawake : c.isAsleep s.machine = false) :
    ∃ m₁, c.Ready s.machine m₁ ∧
      c.step s.machine = c.afterSeek ((Action.resolve c.process page kind).run m₁) ∧
      ((∃ t m', (Action.resolve c.process page kind).run m₁ = .ok (.queued t) m') ↔
        s.machine.Misses c.process page kind ∧ s.machine.Exhausted) ∧
      (∀ t m', (Action.resolve c.process page kind).run m₁ = .ok (.queued t) m' →
        t = m₁.waiters.parkers.size ∧ m₁.Parked m') ∧
      (∀ f m₂ m₃, m₁.Swept m₂ → (Action.evict f).run m₂ = .ok () m₃ →
        ∃ m₄, (Action.allocate c.process.pid page).run m₃ = .ok (some f) m₄) ∧
      (s.machine.Misses c.process page kind →
        (∃ f i, s.machine.frameInfo? f = some i ∧ (i.owner = none ∨ i.pins = 0)) →
        s.machine.Unfailing c.process page →
        ∃ f m', (Action.resolve c.process page kind).run m₁ = .ok (.pinned f) m' ∧
          m'.Maps c.process page f) := by
  obtain ⟨loose, hsound⟩ := hs.sound hboot fun _ _ ha => ha
  obtain ⟨m₁, hready, hstep⟩ := Call.exists_ready hwanted hframe hundo hawake
  have hp := (hsound.calls c hc).1
  have halike := hready.alike
  have h₁ := hsound.machine.alike halike
  have hmisses : s.machine.Misses c.process page kind ↔ _ :=
    (hs.reachable.marked hboot).misses_iff hp
  -- an attempt that is permitted and finds the page absent is a miss
  have hresolve : s.machine.Misses c.process page kind →
      ∃ e, m₁.Absent c.process page e ∧ (Action.resolve c.process page kind).run m₁ =
        (Action.serveMiss c.process page).run m₁ := by
    intro hmiss
    obtain ⟨hreg, e, he, hkind, hf⟩ := hmisses.mp hmiss
    have hreg₁ : m₁.Registered c.process := (halike.registered _).mpr hreg
    have he₁ : m₁.entryOf? c.process page = some e := (halike.entryOf? _ _).trans he
    refine ⟨e, ⟨hreg₁, he₁, hf⟩, ?_⟩
    simp only [Action.resolve, EStateM.run_bind, Action.run_permittedEntry_of_entry hreg₁ he₁ hkind,
      hf]
  -- and an attempt that queues up was one, and found every frame pinned
  have hqueued : ∀ t m', (Action.resolve c.process page kind).run m₁ = .ok (.queued t) m' →
      s.machine.Misses c.process page kind ∧ m₁.Exhausted ∧
        (Action.serveMiss c.process page).run m₁ = .ok (.queued t) m' := by
    intro t m' hrun
    obtain ⟨hcontains, ⟨e, he, hkind, hf⟩, hserve⟩ := Action.of_run_resolve_queued hrun
    have hreg := h₁.census.registered_of_contains hp hcontains
    have hmiss := Action.serveMiss_cases h₁ ⟨hreg, he, hf⟩
    rw [hserve] at hmiss
    cases hmiss with
    | queued idle =>
      exact ⟨hmisses.mpr ⟨(halike.registered _).mp hreg, e, (halike.entryOf? _ _).symm.trans he, hkind,
        hf⟩, h₁.idle_eq_zero_iff.mp idle, hserve⟩
  refine ⟨m₁, hready, hstep, ⟨?_, ?_⟩, fun t m' hrun => ?_, fun f m₂ m₃ hswept hevict => ?_,
    fun hmiss hfree hunfailing => ?_⟩
  · rintro ⟨t, m', hrun⟩
    obtain ⟨hmiss, hx, -⟩ := hqueued t m' hrun
    exact ⟨hmiss, hready.exhausted_iff.mp hx⟩
  · rintro ⟨hmiss, hx⟩
    obtain ⟨e, -, hrun⟩ := hresolve hmiss
    obtain ⟨m', -, hserve⟩ := Action.run_serveMiss_of_exhausted h₁ (hready.exhausted_iff.mpr hx)
      c.process page
    exact ⟨_, m', hrun.trans hserve⟩
  · obtain ⟨-, hx, hserve⟩ := hqueued t m' hrun
    obtain ⟨m'', hparked, hserve'⟩ := Action.run_serveMiss_of_exhausted h₁ hx c.process page
    rw [hserve] at hserve'
    cases hserve'
    exact ⟨rfl, hparked⟩
  · exact Action.exists_allocate_of_evict (h₁.alike hswept.alike) hevict c.process.pid page
  · obtain ⟨e, habsent, hrun⟩ := hresolve hmiss
    have hsize : m₁.kernel.frames.directory.size ≤ maxEntryFrame + 1 := by
      rw [← halike.marks.1, hs.reachable.size_directory hboot]
      exact hframes
    have hx : ¬ m₁.Exhausted := by
      obtain ⟨f, i, hi, hidle⟩ := hfree
      rw [hready.exhausted_iff]
      exact fun hx => hidle.elim (hx f i hi).1 (hx f i hi).2
    obtain ⟨f, m', hserve⟩ := Action.exists_serveMiss_of_unfailing h₁ rfl habsent
      (hready.unfailing hunfailing) hsize (mt h₁.idle_eq_zero_iff.mp hx)
    have hspec := Action.serveMiss_spec h₁ habsent
    rw [hserve] at hspec
    exact ⟨f, m', hrun.trans hserve, hspec.maps⟩

/-- A system with one frame, which is pinned, in which another page is asked for. -/
def saturated : System := (ofMachine (fresh 1)).run
  [.spawn (Image.ofMemory .empty).toExecutable [] .demand, .step 0, .request 0 (.pin ⟨0⟩ .read),
    .step 0, .step 0, .request 0 (.fault ⟨1⟩)]

/-- A system with one frame, which holds a page that was written to, in which another page is asked
for. -/
def laden : System := (ofMachine (fresh 1)).run
  [.spawn (Image.ofMemory .empty).toExecutable [] .demand, .step 0, .request 0 (.write .zero [7]),
    .step 0, .step 0, .step 0, .step 0, .request 0 (.fault ⟨1⟩)]

/-- The call queues up if the frame is pinned, and else the page is brought in. -/
theorem attempt_queues_iff_saturated :
    (∃ c m₁ t m', saturated.calls = [c] ∧ c.Ready saturated.machine m₁ ∧
      (Action.resolve c.process ⟨1⟩ .read).run m₁ = .ok (.queued t) m' ∧ m₁.Parked m') ∧
    ∃ c m₁ f m', laden.calls = [c] ∧ c.Ready laden.machine m₁ ∧
      (Action.resolve c.process ⟨1⟩ .read).run m₁ = .ok (.pinned f) m' ∧
      m'.Maps c.process ⟨1⟩ f := by
  constructor
  · have hhistory : History HasRoom (ofMachine (fresh 1)) saturated [] :=
      History.start.run (by decide +kernel)
    let c := Call.fault (saturated.processes.head (List.cons_ne_nil _ _)) ⟨1⟩
    obtain ⟨m₁, hready, -, hqueues, hparks, -⟩ :=
      @attempt_queues_iff saturated ⟨1, 1, true⟩ (.empty none) (fresh 1) ⟨1⟩ .read rfl (by decide)
        hhistory c (List.mem_singleton_self _) rfl rfl nofun rfl
    have hmisses : saturated.machine.Misses c.process ⟨1⟩ .read :=
      ⟨rfl, rfl, nofun, by decide +kernel⟩
    have hexhausted : saturated.machine.Exhausted := by
      intro f i hi
      obtain rfl := FrameTable.eq_zero_of_info? rfl hi
      cases hi
      exact ⟨nofun, nofun⟩
    obtain ⟨t, m', hrun⟩ := hqueues.mpr ⟨hmisses, hexhausted⟩
    exact ⟨c, m₁, t, m', rfl, hready, hrun, (hparks t m' hrun).2⟩
  · have hhistory : History HasRoom (ofMachine (fresh 1)) laden [] :=
      History.start.run (by decide +kernel)
    let p := laden.processes.head (List.cons_ne_nil _ _)
    let c := Call.fault p ⟨1⟩
    obtain ⟨m₁, hready, -, -, -, -, hserves⟩ :=
      @attempt_queues_iff laden ⟨1, 1, true⟩ (.empty none) (fresh 1) ⟨1⟩ .read rfl (by decide)
        hhistory c (List.mem_singleton_self _) rfl rfl nofun rfl
    have hmisses : laden.machine.Misses p ⟨1⟩ .read := ⟨rfl, rfl, nofun, by decide +kernel⟩
    have hunfailing : laden.machine.Unfailing p ⟨1⟩ :=
      ⟨⟨rfl, Option.isSome_iff_exists.mp (by decide +kernel)⟩,
        fun _ _ _ _ _ _ _ _ _ _ _ => Or.inr fun _ => nofun⟩
    obtain ⟨f, m', hrun, hmaps⟩ := hserves hmisses ⟨.ofNat 0, _, rfl, Or.inr rfl⟩ hunfailing
    exact ⟨c, m₁, f, m', rfl, hready, hrun, hmaps⟩

end System

end DemandPaging
