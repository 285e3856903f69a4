import DemandPaging.Proofs.Endings
import DemandPaging.Proofs.SingleCalls
import DemandPaging.Proofs.Turns

/-!
# Counters, copies and marks

What a stretch of a run did to the counters of the kernel and to those of the store
(`Machine.Balances`), whether a page lost its frame to another one and what was saved of it
(`Machine.Evicts`), and which pages are marked as dirty afterwards (`Machine.Marks`). The three
together are the `Machine.Traffic` of the stretch. Each critical section has its traffic, whether it
succeeds or fails: attempts (`Action.resolve_traffic`), copies (`Action.transfer_traffic`) and
teardowns (`Action.tearDown_traffic`).
-/

namespace DemandPaging

namespace Machine

variable {m m' m₁ m₂ : Machine} {p q : UserProcess} {page : PageNumber} {e : PageEntry}
  {f : FrameNumber} {i : FrameInfo ProcessId} {taken freed taken' freed' : Nat}
  {target : Option (ProcessId × PageNumber)}

/-- The page lies in a frame. -/
def Resident (m : Machine) (p : UserProcess) (page : PageNumber) : Prop :=
  (m.table p).translate? page ≠ none

/-! ## Counters -/

/-- What happened to the counters while `taken` frames were reserved for pages that are yet to be
brought in, and `freed` frames were given back. A frame leaves the free list for a fault, and comes
back for an eviction. -/
structure Balances (m m' : Machine) (taken freed : Nat) : Prop where
  frames : m'.kernel.frames.free.size + m'.kernel.stats.faults + m.kernel.stats.evictions + taken =
    m.kernel.frames.free.size + m.kernel.stats.faults + m'.kernel.stats.evictions + freed
  writes : m'.kernel.stats.swapWrites + m.kernel.swap.stores =
    m.kernel.stats.swapWrites + m'.kernel.swap.stores
  reads : m'.kernel.stats.swapReads + m.kernel.swap.loads =
    m.kernel.stats.swapReads + m'.kernel.swap.loads
  writes_le : m'.kernel.stats.swapWrites + m.kernel.stats.evictions ≤
    m.kernel.stats.swapWrites + m'.kernel.stats.evictions
  reads_le : m'.kernel.stats.swapReads + m.kernel.stats.faults ≤
    m.kernel.stats.swapReads + m'.kernel.stats.faults

namespace Balances

theorem trans (h : m.Balances m₁ taken freed) (h' : m₁.Balances m₂ taken' freed') :
    m.Balances m₂ (taken + taken') (freed + freed') := by
  obtain ⟨hf, hw, hr, hwl, hrl⟩ := h
  obtain ⟨hf', hw', hr', hwl', hrl'⟩ := h'
  constructor <;> omega

/-- A frame that was reserved and put to use makes no difference. -/
theorem settle (h : m.Balances m' 1 1) : m.Balances m' 0 0 := by
  obtain ⟨hf, hw, hr, hwl, hrl⟩ := h
  exact ⟨by omega, hw, hr, hwl, hrl⟩

end Balances

/-! ## Evictions -/

/-- At most one page lost its frame to another page. If it was dirty, the store has taken the bytes
that it had; otherwise the store has taken nothing. -/
inductive Evicts (m m' : Machine) : Prop
  | nobody (evictions : m'.kernel.stats.evictions = m.kernel.stats.evictions)
      (stores : m'.kernel.swap.stores = m.kernel.swap.stores)
  | page {q : UserProcess} {page : PageNumber} {e : PageEntry} {f : FrameNumber}
      (registered : m.Registered q) (entry : m.entryOf? q page = some e) (frame : e.frame? = some f)
      (evictions : m'.kernel.stats.evictions = m.kernel.stats.evictions + 1)
      (gone : ¬ m'.Resident q page)
      (saved : e.dirty = true → ∃ content swap, m.kernel.memory.frames[f.toNat]? = some content ∧
        m.kernel.swap.store (q.pid, page) content.bytes = .ok swap ∧
        m'.kernel.swap = { swap with loads := m'.kernel.swap.loads })
      (spared : e.dirty = false →
        m'.kernel.swap = { m.kernel.swap with loads := m'.kernel.swap.loads })

/-! ## Marks -/

/-- A resident page is dirty if it was written to, or was resident and dirty before. -/
structure Marks (m m' : Machine) (target : Option (ProcessId × PageNumber)) : Prop where
  registered : ∀ q page, m'.Registered q → m'.Resident q page → m.Registered q
  dirty : ∀ q page, m'.Registered q → m'.Resident q page →
    (m'.Dirty q page ↔ target = some (q.pid, page) ∨ m.Resident q page ∧ m.Dirty q page)

/-- Where the entry is the same, so is the mark. -/
theorem dirty_of_entryOf? (h : m'.entryOf? q page = m.entryOf? q page)
    (hresident : m'.Resident q page) :
    m'.Dirty q page ↔ (none : Option (ProcessId × PageNumber)) = some (q.pid, page) ∨
      m.Resident q page ∧ m.Dirty q page := by
  have hsame : m.Resident q page := by
    rw [Resident, translate?_table, ← h]
    exact hresident
  simp [Dirty, h, hsame]

/-- What a stretch of a run did to counters, copies and marks. -/
structure Traffic (m m' : Machine) (taken freed : Nat)
    (target : Option (ProcessId × PageNumber)) : Prop where
  balances : m.Balances m' taken freed
  evicts : m.Evicts m'
  marks : m.Marks m' target

/-! ## Nothing of account -/

/-- Free frames, copies and page tables are as before, and nothing was counted but calls that had to
wait. -/
structure Unmoved (m m' : Machine) : Prop where
  stack : m'.kernel.frames.free.stack = m.kernel.frames.free.stack
  kernel : m'.kernel = { m.kernel with
    frames := m'.kernel.frames
    stats := { m.kernel.stats with blocks := m'.kernel.stats.blocks } }
  tables : m'.tables = m.tables

namespace Unmoved

theorem refl (m : Machine) : m.Unmoved m := ⟨rfl, rfl, rfl⟩

theorem trans (h : m.Unmoved m₁) (h' : m₁.Unmoved m₂) : m.Unmoved m₂ where
  stack := h'.stack.trans h.stack
  kernel := by rw [h'.kernel, h.kernel]
  tables := h'.tables.trans h.tables

instance : IsPreorder Machine Unmoved where
  refl := refl
  trans _ _ _ := trans

theorem noted (m : Machine) (ev : Event) : m.Unmoved (m.noted ev) := ⟨rfl, rfl, rfl⟩

theorem withFrames {t : FrameTable ProcessId} (h : t.free = m.kernel.frames.free) :
    m.Unmoved (m.withFrames t) := ⟨congrArg FreeList.stack h, rfl, rfl⟩

theorem of_swept (h : m.Swept m') : m.Unmoved m' where
  stack := congrArg FreeList.stack h.free
  kernel := by rw [h.kernel]
  tables := h.tables

variable (h : m.Unmoved m')
include h

theorem entryOf? (q : UserProcess) (page : PageNumber) : m'.entryOf? q page = m.entryOf? q page := by
  rw [Machine.entryOf?, Machine.entryOf?, table, table, h.tables]

theorem resident (q : UserProcess) (page : PageNumber) :
    m'.Resident q page ↔ m.Resident q page := by
  rw [Resident, Resident, translate?_table, translate?_table, h.entryOf?]

theorem registered (q : UserProcess) : m'.Registered q ↔ m.Registered q := by
  rw [Registered, Registered, process?, process?, h.kernel]

theorem dirty (q : UserProcess) (page : PageNumber) : m'.Dirty q page ↔ m.Dirty q page := by
  rw [Dirty, Dirty, h.entryOf?]

theorem swap : m'.kernel.swap = m.kernel.swap := by rw [h.kernel]

theorem memory : m'.kernel.memory = m.kernel.memory := by rw [h.kernel]

theorem traffic : m.Traffic m' 0 0 none where
  balances := by
    have hstats : m'.kernel.stats.faults = m.kernel.stats.faults ∧
        m'.kernel.stats.evictions = m.kernel.stats.evictions ∧
        m'.kernel.stats.swapWrites = m.kernel.stats.swapWrites ∧
        m'.kernel.stats.swapReads = m.kernel.stats.swapReads := by
      rw [h.kernel]
      exact ⟨rfl, rfl, rfl, rfl⟩
    obtain ⟨hfaults, hevictions, hwrites, hreads⟩ := hstats
    constructor <;> simp only [FreeList.size, h.stack, h.swap, hfaults, hevictions, hwrites, hreads] <;>
      omega
  evicts := .nobody (by rw [h.kernel]) (by rw [h.kernel])
  marks := {
    registered q _ hq _ := (h.registered q).mp hq
    dirty q page _ hr := dirty_of_entryOf? (h.entryOf? q page) hr }

end Unmoved

namespace Traffic

/-- Before the stretch nothing of account has happened. -/
theorem after (h : m₁.Traffic m' taken freed target) (hu : m.Unmoved m₁) :
    m.Traffic m' taken freed target where
  balances := by simpa using hu.traffic.balances.trans h.balances
  evicts := by
    cases h.evicts with
    | nobody evictions stores =>
      rw [hu.kernel] at evictions stores
      exact .nobody evictions stores
    | page registered entry frame evictions gone saved spared =>
      rw [hu.kernel] at evictions
      rw [hu.swap, hu.memory] at saved
      rw [hu.swap] at spared
      exact .page ((hu.registered _).mp registered) (hu.entryOf? .. ▸ entry) frame evictions gone
        saved spared
  marks := {
    registered q page hq hr := (hu.registered q).mp (h.marks.registered q page hq hr)
    dirty q page hq hr := by rw [h.marks.dirty q page hq hr, hu.resident, hu.dirty] }

theorem settle (h : m.Traffic m' 1 1 target) : m.Traffic m' 0 0 target :=
  ⟨h.balances.settle, h.evicts, h.marks⟩

/-- After the stretch no page loses its frame. A page whose entry changes comes in, and is clean. -/
theorem before (h : m.Traffic m₁ taken freed none) (hb : m₁.Balances m' taken' freed')
    (hevictions : m'.kernel.stats.evictions = m₁.kernel.stats.evictions)
    (hswap : m'.kernel.swap = { m₁.kernel.swap with loads := m'.kernel.swap.loads })
    (hregistered : ∀ q, m'.Registered q → m.Registered q ∧ m₁.Registered q)
    (hentry : ∀ q page, m'.entryOf? q page = m₁.entryOf? q page ∨
      ¬ m.Resident q page ∧ ¬ m'.Dirty q page) :
    m.Traffic m' (taken + taken') (freed + freed') none where
  balances := h.balances.trans hb
  evicts := by
    cases h.evicts with
    | nobody evictions stores =>
      exact .nobody (hevictions.trans evictions) ((congrArg Swap.stores hswap).trans stores)
    | @page q page e f registered entry frame evictions gone saved spared =>
      have hresident : m.Resident q page := by
        rw [Resident, translate?_table, entry, Option.bind_some, frame]
        exact Option.some_ne_none f
      refine .page registered entry frame (hevictions.trans evictions) ?_ (fun hd => ?_) fun hd => ?_
      · rw [Resident, translate?_table, (hentry q page).resolve_right fun hc => hc.1 hresident]
        exact gone
      · obtain ⟨content, swap, hcontent, hstore, heq⟩ := saved hd
        exact ⟨content, swap, hcontent, hstore, hswap.trans (by rw [heq])⟩
      · exact hswap.trans (by rw [spared hd])
  marks := {
    registered q _ hq _ := (hregistered q hq).1
    dirty q page hq hr := by
      rcases hentry q page with heq | ⟨habsent, hclean⟩
      · rw [Resident, translate?_table, heq] at hr
        rw [Dirty, heq]
        exact h.marks.dirty q page (hregistered q hq).2 hr
      · simp [habsent, hclean] }

end Traffic

/-! ## A page loses its frame -/

/-- A copy that the store takes is counted. -/
theorem counts_of_store {s s' : Swap} {key : SwapKey} {frame : Bytes}
    (h : s.store key frame = .ok s') : s'.stores = s.stores + 1 ∧ s'.loads = s.loads := by
  obtain ⟨p, rfl, -⟩ := Swap.of_store h
  exact ⟨rfl, rfl⟩

theorem Vacated.traffic {ps : List UserProcess} (h : m.Vacated m' f q page e) (hc : m.Census ps) :
    m.Traffic m' 0 0 none where
  balances := by
    have hcounts : m'.kernel.swap.stores = m.kernel.swap.stores + e.dirty.toNat ∧
        m'.kernel.swap.loads = m.kernel.swap.loads := by
      cases hd : e.dirty with
      | true =>
        obtain ⟨content, -, hstore⟩ := h.saved hd
        exact counts_of_store hstore
      | false =>
        rw [h.spared hd]
        exact ⟨rfl, rfl⟩
    have hstats : m'.kernel.stats = { m.kernel.stats with
        evictions := m.kernel.stats.evictions + 1
        swapWrites := m.kernel.stats.swapWrites + e.dirty.toNat } := by rw [h.kernel]
    have hfree : m'.kernel.frames.free.size = m.kernel.frames.free.size + 1 := by
      rw [h.kernel]
      rfl
    have hdirty : e.dirty.toNat ≤ 1 := Bool.toNat_le _
    constructor <;> simp only [hstats, hfree, hcounts] <;> omega
  evicts := by
    obtain ⟨i, pid, -, -, -, -, hprocess⟩ := h.info
    obtain ⟨rfl, -⟩ := hc.registered pid q hprocess
    refine .page hprocess h.entry h.frame (by rw [h.kernel]) ?_ (fun hd => ?_) fun hd => ?_
    · rw [Resident, h.table, if_pos ⟨rfl, rfl⟩]
      exact not_not_intro rfl
    · obtain ⟨content, hcontent, hstore⟩ := h.saved hd
      exact ⟨content, _, hcontent, hstore, rfl⟩
    · rw [h.spared hd]
  marks := {
    registered r _ hr _ := by
      rw [Registered, process?, h.kernel] at hr
      exact hr
    dirty r page' _ hr := by
      have hentry := h.entryOf? r page'
      split at hentry
      · -- the page that lost its frame is not resident
        rw [Resident, translate?_table, hentry, Option.bind_some, PageEntry.frame?_evicted] at hr
        contradiction
      · exact dirty_of_entryOf? hentry hr }

/-! ## A frame is reserved, and given back or filled -/

theorem traffic_handedOut {fs : List FrameNumber} (h : m.kernel.frames.free.stack = f :: fs)
    (p : UserProcess) (page : PageNumber) : m.Traffic (m.handedOut p page f) 1 0 none where
  balances := by
    have hfree : (m.handedOut p page f).kernel.frames.free.size + 1 = m.kernel.frames.free.size := by
      simp [handedOut, FreeList.size, FrameTable.handOut, h]
    constructor <;> simp only [handedOut, kernel_noted, kernel_withFrames] at hfree ⊢ <;> omega
  evicts := .nobody rfl rfl
  marks := ⟨fun _ _ hq _ => hq, fun _ _ _ hr => dirty_of_entryOf? rfl hr⟩

/-- **A frame that the pool grants** was free, or was taken from one page. -/
theorem Granted.traffic {ps : List UserProcess} (h : m.Granted m' p page f) (hc : m.Census ps) :
    m.Traffic m' 1 0 none := by
  cases h with
  | free stack eq =>
    subst eq
    exact traffic_handedOut stack p page
  | @evicted t ev m₁ q page' e stack victim vacated eq =>
    subst eq
    have hvacated := (vacated.traffic (hc.congr rfl rfl rfl)).after
      ((Unmoved.withFrames (FrameTable.selectVictim_some victim).2.1).trans (.noted _ ev))
    have htop : m₁.kernel.frames.free.stack = f :: t.free.stack := by
      rw [vacated.kernel]
      rfl
    have hhanded := traffic_handedOut htop p page
    refine hvacated.before hhanded.balances rfl rfl (fun r hr => ⟨?_, hr⟩) fun _ _ => .inl rfl
    have hregistry : m₁.kernel.registry = m.kernel.registry := by
      rw [vacated.kernel]
      rfl
    rw [Registered, process?, ← hregistry]
    exact hr

/-- The frame was filled, and the page mapped to it. -/
theorem Traffic.installed {content : Page} (h : m.Traffic m₁ taken freed none)
    (hi : m₁.Installed m' p page f e i content) (hregistered : ∀ q, m₁.Registered q → m.Registered q)
    (habsent : ¬ m.Resident p page) : m.Traffic m' taken (freed + 1) none := by
  have hb : m₁.Balances m' 0 1 := by
    have hreads : m₁.reads p page ≤ 1 := Bool.toNat_le _
    constructor <;> rw [hi.kernel] <;> simp only [FrameTable.withInfo] <;> omega
  refine h.before hb (by rw [hi.kernel]) (by rw [hi.kernel]) (fun r hr => ?_) fun r page' => ?_
  · rw [Registered, process?, hi.kernel] at hr
    exact ⟨hregistered r hr, hr⟩
  · obtain ⟨e', -, hclean, hentry⟩ := hi.entryOf?
    rw [hentry]
    split
    · next hsame =>
      refine .inr ⟨?_, ?_⟩
      · rw [Resident, table, hsame.1, hsame.2]
        exact habsent
      · rw [Dirty, hentry, if_pos hsame]
        simp [hclean]
    · exact .inl rfl

/-- Nothing has changed but the pool. -/
structure Repooled (m m' : Machine) : Prop where
  kernel : m'.kernel = { m.kernel with frames := m'.kernel.frames }
  tables : m'.tables = m.tables

instance : IsPreorder Machine Repooled where
  refl _ := ⟨rfl, rfl⟩
  trans _ _ _ h h' := ⟨by rw [h'.kernel, h.kernel], h'.tables.trans h.tables⟩

/-- The frame was given back. -/
theorem Traffic.gaveBack (h : m.Traffic m₁ taken freed none) (hr : m₁.Repooled m')
    (hstack : m'.kernel.frames.free.stack = f :: m₁.kernel.frames.free.stack)
    (hregistered : ∀ q, m₁.Registered q → m.Registered q) :
    m.Traffic m' taken (freed + 1) none := by
  have hb : m₁.Balances m' 0 1 := by
    have hfree : m'.kernel.frames.free.size = m₁.kernel.frames.free.size + 1 :=
      congrArg List.length hstack
    have hstats : m'.kernel.stats = m₁.kernel.stats := by rw [hr.kernel]
    have hswap : m'.kernel.swap = m₁.kernel.swap := by rw [hr.kernel]
    constructor <;> grind
  refine h.before hb (by rw [hr.kernel]) (by rw [hr.kernel]) (fun r hreg => ?_)
    fun r page' => .inl ?_
  · rw [Registered, process?, hr.kernel] at hreg
    exact ⟨hregistered r hreg, hreg⟩
  · rw [entryOf?, entryOf?, table, table, hr.tables]

end Machine

open Machine

namespace Action

variable {m m' m₁ : Machine} {l : Ledger} {p : UserProcess} {page : PageNumber} {e : PageEntry}
  {f : FrameNumber} {i : FrameInfo ProcessId}

/-! ## Attempts -/

theorem unmoved_note (ev : Event) : Ensures Unmoved (note ev) := ensures_modify (Unmoved.noted · ev)

theorem unmoved_pin (f : FrameNumber) : Ensures Unmoved (pin f) :=
  ensures_onFrames_map fun _ _ ht => by
    obtain ⟨i, -, rfl⟩ := FrameTable.of_pin ht
    exact .withFrames rfl

theorem unmoved_setReferenced (f : FrameNumber) (b : Bool) :
    Ensures Unmoved (setReferenced f b) :=
  ensures_onFrames_map fun _ _ ht => by
    obtain ⟨i, -, rfl⟩ := FrameTable.of_setReferenced ht
    exact .withFrames rfl

theorem unmoved_queueUp (p : UserProcess) (page : PageNumber) : Ensures Unmoved (queueUp p page) := by
  refine (ensures_onFrames fun m a t ht => ?_).bind fun _ => Ensures.bind ?_ fun _ =>
    (unmoved_note _).bind fun _ => ensures_pure _
  · cases ht
    exact .withFrames rfl
  · exact ensures_modify fun m => ⟨rfl, rfl, rfl⟩

/-- What is done to give a frame back concerns the pool only. -/
theorem repooled_withdraw (f : FrameNumber) (err : VmError) :
    Ensures Repooled (do unpin f; release f; fail err : Action Unit) :=
  (ensures_onFrames fun _ _ _ _ => ⟨rfl, rfl⟩).bind fun _ =>
    ((ensures_onFrames fun _ _ _ _ => ⟨rfl, rfl⟩).bind fun _ =>
      ensures_modify fun _ => ⟨rfl, rfl⟩).bind fun _ => ensures_throw _

/-- **A page that could not be brought in** has left its traces in the pool only, if its frame has a
number that fits an entry. -/
theorem repooled_of_bringIn {err : VmError} {old : Page} {v : BitVec 24} (ha : m.Absent p page e)
    (hold : m.kernel.memory.frames[f.toNat]? = some old) (hv : PageEntry.frameBits? f = some v)
    (hrun : (bringIn p page f).run m = .error (.error err) m') : m.Repooled m' := by
  set m₀ := m.noted (.faultPopulate p.pid page f)
  have hnote : (note (.faultPopulate p.pid page f)).run m = .ok () m₀ := rfl
  have hnoted : m.Repooled m₀ := ⟨rfl, rfl⟩
  have hold₀ : m₀.kernel.memory.frames[f.toNat]? = some old := hold
  have hfirst := run_orGiveBack f (populate p page f) m₀
  rcases run_populate p page hold₀ with
    ⟨content, m₁, -, halike, -, -, hpopulate⟩ | ⟨err', -, -, hpopulate⟩ | ⟨v', -, -, hpopulate⟩
  · -- the page is mapped then, and nothing fails any more
    have habsent : (m₁.noted (.faultInstall p.pid page)).Absent p page e :=
      (halike.trans (.noted m₁ _)).absent ha
    have hinstall := run_install_of_bits habsent hv m.kernel.config.referenceOnInstall
    rw [hpopulate] at hfirst
    simp only [bringIn, EStateM.run_bind, EStateM.run_get, hnote, hfirst, run_note, run_orGiveBack,
      hinstall] at hrun
    split at hrun
    · simp only [run_count] at hrun
      cases hrun
    · next hset =>
      obtain ⟨v', -, rfl, -⟩ := run_onFrames_eq_error.mp hset
      cases hrun
  · have hback := repooled_withdraw f err' m₀
    rw [hpopulate] at hfirst
    dsimp only at hfirst
    cases hend : (do unpin f; release f; fail err' : Action Unit).run m₀ with
    | ok u m₁ => simp only [run_bind_eq_ok, run_fail, reduceCtorEq, and_false, exists_false] at hend
    | error stop m₁ =>
      rw [hend] at hback hfirst
      simp only [bringIn, EStateM.run_bind, EStateM.run_get, hnote, hfirst] at hrun
      cases hrun
      exact IsTrans.trans m m₀ m' hnoted hback
  · rw [hpopulate] at hfirst
    simp only [bringIn, EStateM.run_bind, EStateM.run_get, hnote, hfirst] at hrun
    cases hrun

section Attempt

variable (h : m.Sound l) (himage : p.image.Answers)
  (hsize : m.kernel.frames.directory.size ≤ maxEntryFrame + 1)
include h himage hsize

theorem serveMiss_traffic (ha : m.Absent p page e) :
    EndsIn (m.Traffic · 0 0 none) ((serveMiss p page).run m) := by
  simp only [serveMiss, EStateM.run_bind, run_note]
  set m₀ := (m.noted (.faultMiss p.pid page)).noted (.faultAcquire p.pid page)
  have hm₀ : m.Unmoved m₀ := (Unmoved.noted m _).trans (.noted _ _)
  have halike : Alike m m₀ := (Alike.noted m _).trans (.noted _ _)
  have hsound := h.alike halike
  have hacquire := acquireFrame_spec hsound (halike.absent ha)
  cases hrun : (acquireFrame p page).run m₀ with
  | error stop m₁ =>
    rw [hrun] at hacquire
    cases hacquire with
    | failed cause chosen => exact (hm₀.trans (.of_swept chosen.swept)).traffic
  | ok result m₁ =>
    rw [hrun] at hacquire
    cases hacquire with
    | refused idle =>
      have hqueue := unmoved_queueUp p page m₀
      rw [run_queueUp] at hqueue
      simp only [EStateM.run_bind, run_queueUp, EStateM.run_pure]
      exact (hm₀.trans hqueue).traffic
    | @granted f m₁ hsound₁ keeps orderly absent reserved idle waiters =>
      have hregistered : ∀ q, m₁.Registered q → m.Registered q :=
        fun q hq => (keeps.registered q).mp hq
      have htraffic := ((of_run_acquireFrame hrun).traffic hsound.census).after hm₀
      obtain ⟨i, hi, howner, hpage, hpins⟩ := reserved.info
      have harrive := bringIn_spec hsound₁ (absent _ _ _ (halike.absent ha)) hi howner hpage hpins
      cases hbring : (bringIn p page f).run m₁ with
      | ok u m' =>
        obtain ⟨e', i', content, hinstalled⟩ := of_run_bringIn hbring
        have habsent : ¬ m.Resident p page := by
          rw [Resident, translate?_table, ha.2.1, Option.bind_some, ha.2.2]
          exact not_not_intro rfl
        simp only [EStateM.run_bind, hbring, EStateM.run_pure]
        exact (htraffic.installed hinstalled hregistered habsent).settle
      | error stop m' =>
        rw [hbring] at harrive
        simp only [EStateM.run_bind, hbring]
        cases harrive with
        | undone cause sound keeps' orderly' idle' gave =>
          have hlt := FrameTable.lt_of_info? hi
          rw [orderly.size] at hlt
          obtain ⟨v, hv⟩ : ∃ v, PageEntry.frameBits? f = some v :=
            ⟨_, if_pos (Nat.le_of_lt_succ (Nat.lt_of_lt_of_le hlt hsize))⟩
          obtain ⟨old, hold⟩ := hsound₁.exists_bytes hi
          have hrepooled := repooled_of_bringIn (absent _ _ _ (halike.absent ha)) hold hv hbring
          exact (htraffic.gaveBack hrepooled gave.stack hregistered).settle
        | stuck image => exact absurd image (p.initialContent_ne_violation himage page _)

/-- **The traffic of an attempt.** No frame is lost on the way, and none is gained. -/
theorem resolve_traffic (hp : p ∈ l.processes) (page : PageNumber) (kind : AccessKind) :
    EndsIn (m.Traffic · 0 0 none) ((resolve p page kind).run m) := by
  rcases run_permittedEntry p page kind h.census hp with
    ⟨err, -, hrun⟩ | ⟨e, hreg, he, hrun⟩
  · simp only [resolve, EStateM.run_bind, hrun]
    exact (Unmoved.refl m).traffic
  · simp only [resolve, EStateM.run_bind, hrun]
    cases hf : e.frame? with
    | none => exact serveMiss_traffic h himage hsize ⟨hreg, he, hf⟩
    | some f =>
      have hhit : Ensures Unmoved (do pin f; setReferenced f true; return .pinned f : Action Grant) :=
        (unmoved_pin f).bind fun _ => (unmoved_setReferenced f true).bind fun _ => ensures_pure _
      exact (hhit m).mono fun _ hu => hu.traffic

end Attempt

end Action

/-! ## Copies -/

theorem PageTable.markAccess_of_absent {t : PageTable} {page : PageNumber}
    (h : t.translate? page = none) (write : Bool) : t.markAccess page write = t := by
  refine markAccess_of_invalid (fun e he => Bool.eq_false_iff.mpr fun hvalid => ?_) write
  obtain ⟨f, hf⟩ := PageEntry.exists_frame? hvalid
  rw [translate?, he, Option.bind_some, hf] at h
  cases h

namespace Machine

variable {m m' : Machine} {l : Ledger} {p q : UserProcess} {page : PageNumber} {e : PageEntry}
  {f : FrameNumber}

/-- An access to a resident page marks it as dirty if it is a write, and marks no other page. -/
theorem marks_markAccess {ps : List UserProcess} (hc : m.Census ps) (hp : p ∈ ps) (page : PageNumber)
    (write : Bool) : m.Marks (m.withTable p ((m.table p).markAccess page write))
      (if write then some (p.pid, page) else none) := by
  refine ⟨fun q _ hq _ => hq, fun q page' hq hr => ?_⟩
  replace hq : m.Registered q := hq
  have hqs := hc.mem hq
  cases ht : (m.table p).translate? page with
  | none =>
    rw [PageTable.markAccess_of_absent ht, withTable_table] at hr ⊢
    have hne : (if write then some (p.pid, page) else none) ≠ some (q.pid, page') := by
      intro heq
      obtain ⟨-, heq⟩ := Option.ite_none_right_eq_some.mp heq
      obtain ⟨hpid, rfl⟩ := Prod.mk.inj (Option.some.inj heq)
      obtain rfl := hc.eq_of_pid hp hqs hpid
      exact hr ht
    simp [hne, hr]
  | some f =>
    obtain ⟨e, he, hf⟩ := Option.bind_eq_some_iff.mp ht
    rw [PageTable.markAccess_of_valid he (PageEntry.valid_of_frame? hf)] at hr ⊢
    rcases entryOf?_withEntry (e.accessed write) page' hc hp hqs he with ⟨rfl, rfl, hentry⟩ | ⟨hne, hentry⟩
    · have hresident : m.Resident q page' := by
        rw [Resident, ht]
        exact Option.some_ne_none f
      have hold : m.Dirty q page' ↔ e.dirty = true := by
        have he' : m.entryOf? q page' = some e := he
        simp [Dirty, he']
      have hnew : (m.withEntry q page' (e.accessed write)).Dirty q page' ↔
          (e.accessed write).dirty = true := by
        simp [Dirty, hentry]
      refine hnew.trans ?_
      rw [e.dirty_accessed, Bool.or_eq_true, hold]
      cases write <;> simp [hresident]
    · have hkept : (if write then some (p.pid, page) else none) ≠ some (q.pid, page') := by
        intro heq
        obtain ⟨-, heq⟩ := Option.ite_none_right_eq_some.mp heq
        exact hne (Option.some.inj heq).symm
      refine (dirty_of_entryOf? hentry hr).trans ?_
      simp [hkept]

end Machine

namespace Action

variable {m m' : Machine} {l : Ledger} {p : UserProcess} {c c' : Copy} {piece : CopyPiece}
  {f : FrameNumber}

/-- **The traffic of a copy.** A write marks its page as dirty, and nothing else is of account. -/
theorem transfer_traffic {ps : List UserProcess} (hc : m.Census ps) (hp : p ∈ ps)
    (hrun : (transfer p c piece f).run m = .ok c' m') :
    m.Traffic m' 0 0 (if c.kind.isWrite then some (p.pid, piece.page) else none) := by
  obtain ⟨-, -, m₁, rfl, hm₁⟩ := of_run_transfer hrun
  have hmarks := marks_markAccess hc hp piece.page c.kind.isWrite
  rcases hm₁ with ⟨-, rfl⟩ | ⟨-, b, -, rfl⟩ <;>
    exact ⟨⟨rfl, rfl, rfl, Nat.le_refl _, Nat.le_refl _⟩, .nobody rfl rfl, hmarks.registered,
      hmarks.dirty⟩

end Action

/-! ## Teardowns -/

namespace Machine

variable {m m' m₁ : Machine} {l : Ledger} {p q : UserProcess} {page : PageNumber} {f : FrameNumber}
  {i : FrameInfo ProcessId}

/-- The frames that the dead process `p` was to give back, in their order, were let go, up to one that
is pinned. -/
structure LetGo (m m' : Machine) (p : UserProcess) (owned : List (FrameNumber × PageNumber)) :
    Prop where
  kernel : m'.kernel = { m.kernel with frames := m'.kernel.frames }
  free : m'.kernel.frames.free.size = m.kernel.frames.free.size +
    owned.countP fun x => (m'.ownerOf? x.1).isNone
  info : ∀ f, f ∉ owned.map Prod.fst → m'.frameInfo? f = m.frameInfo? f
  tables : ∀ q, m.Registered q → m'.table q = m.table q

/-- A frame without pins is let go first. -/
theorem LetGo.cons {owned : List (FrameNumber × PageNumber)} (h : m.Sound l) (hp : p ∈ l.processes)
    (hdead : m.process? p.pid = none) (hi : m.frameInfo? f = some i)
    (hnot : f ∉ owned.map Prod.fst) (hrest : (m.returned p page f).LetGo m' p owned) :
    m.LetGo m' p ((f, page) :: owned) where
  kernel := hrest.kernel
  free := by
    have hinfo : m'.frameInfo? f = some .free := by
      rw [hrest.info f hnot, frameInfo?_returned hi, if_pos rfl]
    have howner : (m'.ownerOf? f).isNone = true := by
      rw [ownerOf?_of_info hinfo]
      rfl
    have hfree : (m.returned p page f).kernel.frames.free.size = m.kernel.frames.free.size + 1 := rfl
    rw [hrest.free, hfree, List.countP_cons, if_pos howner]
    omega
  info g hg := by
    rw [List.map_cons, List.mem_cons, not_or] at hg
    rw [hrest.info g hg.2, frameInfo?_returned hi, if_neg hg.1]
  tables q hq := (hrest.tables q hq).trans (table_forgot h hp hdead hq)

/-- What a teardown makes of the store is of no account. -/
theorem LetGo.traffic {owned : List (FrameNumber × PageNumber)}
    (h : (m.without p.pid).LetGo m₁ p owned)
    (hkernel : m'.kernel = { m₁.kernel with swap := m'.kernel.swap }) (htables : m'.tables = m₁.tables)
    (hstores : m'.kernel.swap.stores = m₁.kernel.swap.stores)
    (hloads : m'.kernel.swap.loads = m₁.kernel.swap.loads) :
    m.Traffic m' 0 (owned.countP fun x => (m'.ownerOf? x.1).isNone) none := by
  have hkept : m₁.kernel.stats = m.kernel.stats ∧ m₁.kernel.swap = m.kernel.swap ∧
      m₁.kernel.registry = m.kernel.registry.erase p.pid := by
    rw [h.kernel]
    exact ⟨rfl, rfl, rfl⟩
  obtain ⟨hstats, hswap, hregistry⟩ := hkept
  have hframes : m'.kernel.frames = m₁.kernel.frames := by rw [hkernel]
  have hstats' : m'.kernel.stats = m.kernel.stats := by rw [hkernel, ← hstats]
  rw [hswap] at hstores hloads
  have hregistered : ∀ q, m'.Registered q → (m.without p.pid).Registered q := by
    intro q hq
    rw [Registered, process?, hkernel, hregistry] at hq
    exact hq
  have hentry : ∀ q page, m'.Registered q → m'.entryOf? q page = m.entryOf? q page := by
    intro q page hq
    have htable : m'.table q = m₁.table q := by rw [table, table, htables]
    rw [entryOf?, htable, h.tables q (hregistered q hq)]
    rfl
  refine ⟨⟨?_, ?_, ?_, ?_, ?_⟩, .nobody (by rw [hstats']) hstores,
    fun q page hq _ => (process?_of_without (hregistered q hq)).2,
    fun q page hq hr => dirty_of_entryOf? (hentry q page hq) hr⟩
  · have hfree := h.free
    rw [hstats', hframes, hfree]
    have hsame : (m.without p.pid).kernel.frames = m.kernel.frames := rfl
    simp only [ownerOf?, frameInfo?, hframes, hsame]
    omega
  · rw [hstats', hstores]
  · rw [hstats', hloads]
  · exact Nat.le_of_eq (by rw [hstats'])
  · exact Nat.le_of_eq (by rw [hstats'])

end Machine

namespace Action

variable {m m' : Machine} {l : Ledger} {p : UserProcess}

/-- Frames are given back one after the other, until one of them is pinned. -/
theorem letGo_giveBack (owned : List (FrameNumber × PageNumber)) (h : m.Sound l)
    (hp : p ∈ l.processes) (hdead : m.process? p.pid = none) (hnodup : (owned.map Prod.fst).Nodup)
    (howned : ∀ x ∈ owned, ∃ i, m.frameInfo? x.1 = some i ∧ i.owner = some p.pid) :
    EndsIn (m.LetGo · p owned) ((giveBack p owned).run m) := by
  induction owned generalizing m with
  | nil => exact ⟨rfl, rfl, fun _ _ => rfl, fun _ _ => rfl⟩
  | cons x owned ih =>
    obtain ⟨f, page⟩ := x
    obtain ⟨i, hi, howner⟩ := howned (f, page) List.mem_cons_self
    rw [List.map_cons, List.nodup_cons] at hnodup
    rw [run_giveBack_cons h hi howner]
    split
    · next hpins =>
      have howned' : ∀ x ∈ owned,
          ∃ i, (m.returned p page f).frameInfo? x.1 = some i ∧ i.owner = some p.pid := by
        intro x hx
        rw [frameInfo?_returned_of_mem hi hnodup.1 hx]
        exact howned x (List.mem_cons_of_mem _ hx)
      exact (ih (h.returned hp hdead hi howner hpins) hdead hnodup.2 howned').mono
        fun m' hrest => .cons h hp hdead hi hnodup.1 hrest
    · -- the frame is pinned, so all of them are still owned
      refine ⟨rfl, ?_, fun _ _ => rfl, fun q hq => table_forgot h hp hdead hq⟩
      have hnone : ((f, page) :: owned).countP (fun x => (m.ownerOf? x.1).isNone) = 0 := by
        rw [List.countP_eq_zero]
        intro x hx
        obtain ⟨j, hj, hjowner⟩ := howned x hx
        rw [ownerOf?_of_info hj, hjowner]
        exact Bool.false_ne_true
      exact (congrArg (m.kernel.frames.free.size + ·) hnone).symm

/-- **The traffic of a teardown.** The frames that went to the free list are those of the process that
nobody owns any more. -/
theorem tearDown_traffic (h : m.Sound l) (hp : p ∈ l.processes) :
    EndsIn (fun m' => m.Traffic m' 0 ((m.kernel.frames.ownedBy p.pid).countP fun x =>
      (m'.ownerOf? x.1).isNone) none) ((tearDown p).run m) := by
  have hmem : ∀ x ∈ m.kernel.frames.ownedBy p.pid,
      ∃ i, (m.without p.pid).frameInfo? x.1 = some i ∧ i.owner = some p.pid := by
    intro x hx
    obtain ⟨i, hi, howner, -⟩ := (Directory.mem_ownedBy h.pool.size_le).mp hx
    exact ⟨i, hi, howner⟩
  have hgo := letGo_giveBack (m.kernel.frames.ownedBy p.pid) (h.without hp) hp
    (process?_without_self m p.pid) (Directory.nodup_ownedBy h.pool.size_le p.pid) hmem
  rw [run_tearDown_eq]
  cases hrun : (giveBack p (m.kernel.frames.ownedBy p.pid)).run (m.without p.pid) with
  | error stop m₁ =>
    rw [hrun] at hgo
    simp only [EStateM.run_bind, hrun]
    exact hgo.traffic rfl rfl rfl rfl
  | ok u m₁ =>
    rw [hrun] at hgo
    simp only [EStateM.run_bind, hrun, EStateM.run_get, run_setSwap, run_note]
    exact hgo.traffic rfl rfl rfl rfl

end Action

end DemandPaging
