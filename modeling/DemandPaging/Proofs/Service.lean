import DemandPaging.Proofs.Faults
import DemandPaging.Proofs.Promises

/-!
# Attempts that succeed

A store without a limit that can read every page is never to blame for a failed attempt to get at a
page: it stays as it is, whatever an attempt does, and never complains (`Machine.bears_faultless`,
`Machine.admits_ofPage`). With such a store, an attempt to get at a page that the executable provides
succeeds if a frame can be had (`Action.exists_pinned_of_canServe`).
-/

namespace DemandPaging

open Machine

/-- The store takes every copy and can read every page. -/
structure Swap.Faultless (s : Swap) : Prop where
  unlimited : s.capacity = none
  readable : ∀ page, s.unreadable page = false

/-- The executable or the page table is to blame. -/
def VmError.OfPage (err : VmError) : Prop := (∃ e, err = .load e) ∨ ∃ e, err = .pageTable e

namespace Action

/-- A faultless store takes the copy of a page. -/
theorem exists_store {s : Swap} (h : s.Faultless) (key : SwapKey) (content : Page) :
    ∃ s', s.store key content.bytes = .ok s' ∧ s'.Faultless := by
  simp only [Swap.store, Page.ofBytes?_bytes, h.unlimited]
  exact ⟨_, rfl, h.unlimited, h.readable⟩

/-- A faultless store reads a copy, if it has one. -/
theorem exists_load {s : Swap} (h : s.Faultless) (key : SwapKey) :
    ∃ copy? s', s.load key pageSize = .ok (copy?, s') ∧ s'.Faultless := by
  unfold Swap.load
  rw [h.readable, if_neg Bool.false_ne_true, if_neg (not_not_intro rfl)]
  cases s.copy? key with
  | none => exact ⟨none, s, rfl, h⟩
  | some copy => exact ⟨some copy, _, rfl, h.unlimited, h.readable⟩

end Action

namespace Machine

open DemandPaging.Action

theorem bears_faultless : Bears (·.kernel.swap.Faultless) where
  noted _ _ h := h
  counted _ _ h := h
  withFrames _ _ h := h
  withMemory _ _ h := h
  withTables _ _ h := h
  stored m key content swap h hstore := by
    obtain ⟨swap', hstore', hswap⟩ := exists_store h key content
    cases hstore.symm.trans hstore'
    exact hswap
  loaded m key copy? swap h hload := by
    obtain ⟨copy', swap', hload', hswap⟩ := exists_load h key
    cases hload.symm.trans hload'
    exact hswap

/-- A faultless store complains of nothing. -/
theorem admits_ofPage : Admits (·.kernel.swap.Faultless) VmError.OfPage where
  unsaved m key content e h hstore := by
    obtain ⟨swap, hstore', -⟩ := exists_store h key content
    cases hstore.symm.trans hstore'
  unread m key e h hload := by
    obtain ⟨copy?, swap, hload', -⟩ := exists_load h key
    cases hload.symm.trans hload'
  pageTable e := Or.inr ⟨e, rfl⟩

/-- **A miss does not fail for a faultless store.** -/
theorem stands_serveMiss_of_content {p : UserProcess} {page : PageNumber} {content : Page}
    (hcontent : p.initialContent page = .ok content) :
    Stands (·.kernel.swap.Faultless) VmError.OfPage (serveMiss p page) := by
  refine bears_faultless.stands_serveMiss admits_ofPage fun e he => ?_
  rw [hcontent] at he
  cases he

/-- Nothing is in the way of bringing the page in: there is a frame for it, with a number that fits
an entry, every frame has a living owner, and the store is faultless. -/
structure CanBringIn (m : Machine) : Prop where
  idle : m.idle ≠ 0
  encodable : m.kernel.frames.directory.size ≤ maxEntryFrame + 1
  owners : ∀ f pid, ¬ m.Orphaned f pid
  store : m.kernel.swap.Faultless

/-- The page of `p` can be had: it is resident, and its frame can get one more pin, or it can be
brought in. -/
def CanServe (m : Machine) (p : UserProcess) (page : PageNumber) : Prop :=
  match (m.table p).translate? page with
  | some f => ∀ i, m.frameInfo? f = some i → i.pins < FrameInfo.maxPins
  | none => m.CanBringIn

end Machine

namespace Action

variable {m : Machine} {l : Ledger} {p : UserProcess} {page : PageNumber} {e : PageEntry}

/-- How a miss of `page` of `p` can end, by what is to blame for it. -/
inductive Miss (m : Machine) (l : Ledger) (p : UserProcess) (page : PageNumber) :
    EStateM.Result (Stop VmError) Machine Grant → Prop
  /-- The page was brought in. -/
  | served {f : FrameNumber} {m' : Machine} : Miss m l p page (.ok (.pinned f) m')
  /-- Every frame is pinned. -/
  | queued {t : Ticket} {m' : Machine} (idle : m.idle = 0) : Miss m l p page (.ok (.queued t) m')
  /-- The eviction failed. -/
  | uncleared {stop : Stop VmError} {m' : Machine} (cause : EvictionStops m stop) :
      Miss m l p page (.error stop m')
  /-- The page could not be brought into the frame that there was for it. -/
  | unfit {err : VmError} {f : FrameNumber} {m' : Machine}
      (lt : f.toNat < m.kernel.frames.directory.size) (unpinned : f ∉ l.pinned)
      (cause : Unfit p page f err) : Miss m l p page (.error (.error err) m')
  /-- The executable violates an assertion. -/
  | image {v : Violation} {m' : Machine} (content : p.initialContent page = .error (.violation v)) :
      Miss m l p page (.error (.violation v) m')

/-- A miss fails only if a victim cannot be had or the page cannot be brought in. -/
theorem serveMiss_cases (h : m.Sound l) (ha : m.Absent p page e) :
    Miss m l p page ((serveMiss p page).run m) := by
  simp only [serveMiss, EStateM.run_bind, run_note]
  set m₀ := (m.noted (.faultMiss p.pid page)).noted (.faultAcquire p.pid page)
  have hm₀ : Alike m m₀ := (Alike.noted m _).trans (.noted _ _)
  have hacquire := acquireFrame_spec (h.alike hm₀) (hm₀.absent ha)
  cases hrun : (acquireFrame p page).run m₀ with
  | error stop m₁ =>
    rw [hrun] at hacquire
    cases hacquire with
    | failed cause => exact .uncleared (cause.of_alike hm₀)
  | ok result m₁ =>
    rw [hrun] at hacquire
    cases hacquire with
    | refused idle =>
      simp only [EStateM.run_bind, run_queueUp, EStateM.run_pure]
      exact .queued idle
    | @granted f m₁ sound keeps orderly absent reserved idle waiters =>
      obtain ⟨i, hi, howner, hpage, hpins⟩ := reserved.info
      have harrive := bringIn_spec sound (absent _ _ _ (hm₀.absent ha)) hi howner hpage hpins
      simp only [EStateM.run_bind]
      cases hbring : (bringIn p page f).run m₁ with
      | ok u m' => exact .served
      | error stop m' =>
        rw [hbring] at harrive
        cases harrive with
        | undone cause =>
          have hlt := FrameTable.lt_of_info? hi
          rw [orderly.size] at hlt
          exact .unfit hlt (sound.agreement.unmapped f List.mem_cons_self).1 cause
        | stuck image => exact .image image

/-- A page that is not resident is brought in. -/
theorem exists_serveMiss (h : m.Sound l) (ha : m.Absent p page e) {content : Page}
    (hcontent : p.initialContent page = .ok content) (hm : m.CanBringIn) :
    ∃ f m', (serveMiss p page).run m = .ok (.pinned f) m' := by
  have hmiss := serveMiss_cases h ha
  have hstands := stands_serveMiss_of_content hcontent m hm.store
  cases hrun : (serveMiss p page).run m with
  | ok grant m' =>
    rw [hrun] at hmiss
    cases hmiss with
    | served => exact ⟨_, _, rfl⟩
    | queued idle => exact absurd idle hm.idle
  | error stop m' =>
    rw [hrun] at hmiss hstands
    cases hmiss with
    | uncleared cause =>
      cases stop with
      | error err =>
        obtain ⟨c, rfl⟩ := cause
        rcases hstands.2 with ⟨_, heq⟩ | ⟨_, heq⟩ <;> cases heq
      | violation v =>
        obtain ⟨f, pid, horphaned, -, -⟩ := cause
        exact absurd horphaned (hm.owners f pid)
    | unfit lt unpinned cause =>
      cases cause with
      | unreadable => rcases hstands.2 with ⟨_, heq⟩ | ⟨_, heq⟩ <;> cases heq
      | unavailable hmissing =>
        rw [hcontent] at hmissing
        cases hmissing
      | unencodable bits =>
        have hsize := hm.encodable
        rw [PageEntry.frameBits?, if_pos (by omega)] at bits
        cases bits
    | image hviolated =>
      rw [hcontent] at hviolated
      cases hviolated

/-- A page that the process may access is looked up. -/
theorem run_permittedEntry_of_entry (hp : m.Registered p) (he : m.entryOf? p page = some e)
    {kind : AccessKind} (hkind : (kind.isWrite && e.readOnly) = false) :
    (permittedEntry p page kind).run m = .ok e m := by
  have hreg : m.kernel.registry.contains p.pid = true := by
    rw [Registry.contains, show m.kernel.registry.find? p.pid = some p from hp]
    rfl
  simp only [permittedEntry, EStateM.run_bind, EStateM.run_get, hreg, if_true, he, hkind,
    Bool.false_eq_true, if_false, EStateM.run_pure]

/-- A page that is resident gets another pin, if there can be one more. -/
theorem exists_hit (h : m.Sound l) (hp : m.Registered p) (he : m.entryOf? p page = some e)
    {f : FrameNumber} (hf : e.frame? = some f)
    (hpins : ∀ i, m.frameInfo? f = some i → i.pins < FrameInfo.maxPins) :
    ∃ m', (do pin f; setReferenced f true; return .pinned f : Action Grant).run m =
      .ok (.pinned f) m' := by
  obtain ⟨i, hi, howner, -⟩ := h.info_of_entry hp he hf
  have hpin := run_pin hi (howner ▸ Option.some_ne_none _) (hpins i hi)
  have hi' := (FrameTable.info?_withInfo hi { i with pins := i.pins + 1 } f).trans (if_pos rfl)
  have hmark := @run_setReferenced (m.withFrames
    (m.kernel.frames.withInfo f { i with pins := i.pins + 1 })) f _ hi' true
  simp only [EStateM.run_bind, hpin, hmark, EStateM.run_pure]
  exact ⟨_, rfl⟩

/-- **An attempt to get at a page that can be had succeeds**, if the process may access it. -/
theorem exists_pinned_of_canServe (h : m.Sound l) (hp : m.Registered p)
    (he : m.entryOf? p page = some e) {kind : AccessKind}
    (hkind : (kind.isWrite && e.readOnly) = false) {content : Page}
    (hcontent : p.initialContent page = .ok content) (hm : m.CanServe p page) :
    ∃ f m', (resolve p page kind).run m = .ok (.pinned f) m' := by
  have hpermitted : (permittedEntry p page kind).run m = .ok e m :=
    run_permittedEntry_of_entry hp he hkind
  simp only [resolve, EStateM.run_bind, hpermitted]
  rw [CanServe, translate?_table, he, Option.bind_some] at hm
  cases hf : e.frame? with
  | none =>
    rw [hf] at hm
    exact exists_serveMiss h ⟨hp, he, hf⟩ hcontent hm
  | some f =>
    rw [hf] at hm
    obtain ⟨m', hrun⟩ := exists_hit h hp he hf hm
    exact ⟨f, m', hrun⟩

end Action

end DemandPaging
