import DemandPaging.Proofs.Service
import DemandPaging.Proofs.SingleCalls

/-!
# The last frame

If every frame but one is pinned (`Machine.OnlyIdle`), an attempt to get at a page that may be accessed
succeeds unless a page cannot be saved or loaded: the page lies in a pinned frame, or it lies in that
one or is brought into it. When the page has been used, every other frame is as it was and that one is
without a pin again.
-/

namespace DemandPaging

open Machine

/-- A page could not be saved, or not be loaded. -/
def VmError.OfTransfer : VmError → Prop
  | .swap _ | .load _ => True
  | _ => False

instance : (err : VmError) → Decidable err.OfTransfer
  | .swap _ | .load _ => inferInstanceAs (Decidable True)
  | .segmentationFault .. | .processExited _ | .readOnlyViolation .. | .insufficientMemory ..
  | .argumentsTooLong _ | .fragmentedExecutable .. | .pageTable _ => inferInstanceAs (Decidable False)

/-- The call failed because a page could not be saved, or not be loaded. -/
def Progress.FailsInTransfer : Progress → Prop
  | .finished (.failed err _) => err.OfTransfer
  | _ => False

instance : (pr : Progress) → Decidable pr.FailsInTransfer
  | .finished (.failed err _) => inferInstanceAs (Decidable err.OfTransfer)
  | .finished (.returned _) | .finished (.violated _) | .ongoing _ =>
    inferInstanceAs (Decidable False)

/-- The content of a page of the address space is missing only if the executable does not provide it. -/
theorem UserProcess.exists_load_of_initialContent {p : UserProcess} {page : PageNumber}
    (hcontains : p.contains page = true) {err : VmError}
    (h : p.initialContent page = .error (.error err)) : ∃ e, err = .load e := by
  have hsource : p.layout.source? page = some (Layout.sourceIn page.toNat p.layout.ranges 0) :=
    if_pos hcontains
  exact exists_load_of_error hsource h

namespace Machine

variable {m m' m₁ : Machine} {l : Ledger} {p : UserProcess} {page : PageNumber} {e : PageEntry}
  {f g : FrameNumber} {i : FrameInfo ProcessId}

/-- The same processes live, with the same rights to their pages, and the pool has the same size. -/
structure SameRights (m m' : Machine) (ps : List UserProcess) : Prop where
  registry : ∀ pid : ProcessId, m'.process? pid = m.process? pid
  size : m'.kernel.frames.directory.size = m.kernel.frames.directory.size
  readOnly : ∀ p ∈ ps, ∀ page, m'.readOnly? p page = m.readOnly? p page

theorem SameRights.trans {ps : List UserProcess} (h : m.SameRights m₁ ps)
    (h' : m₁.SameRights m' ps) : m.SameRights m' ps :=
  ⟨fun pid => (h'.registry pid).trans (h.registry pid), h'.size.trans h.size,
    fun p hp page => (h'.readOnly p hp page).trans (h.readOnly p hp page)⟩

theorem Orderly.sameRights {ps : List UserProcess} {target : Option (ProcessId × PageNumber)}
    (h : Orderly m m' ps target) : m.SameRights m' ps := ⟨h.registry, h.size, h.readOnly⟩

/-! ## The only frame without a pin -/

/-- Every frame but `f` is pinned, and `f` belongs to a process that lives. -/
structure OnlyIdle (m : Machine) (l : Ledger) (f : FrameNumber) : Prop where
  sound : m.Sound l
  loose : l.loose = []
  unpinned : f ∉ l.pinned
  pinned : ∀ g, g ≠ f → g.toNat < m.kernel.frames.directory.size → g ∈ l.pinned
  owned : ∃ i pid, m.frameInfo? f = some i ∧ i.owner = some pid ∧ m.process? pid ≠ none

namespace OnlyIdle

variable (h : m.OnlyIdle l f)
include h

theorem pins_eq (hi : m.frameInfo? g = some i) : i.pins = l.pinned.count g := by
  rw [h.sound.agreement.pins g i hi, h.loose, List.count_nil, Nat.add_zero]

/-- There is no other frame without a pin. -/
theorem eq_of_not_mem (hi : m.frameInfo? g = some i) (hg : g ∉ l.pinned) : g = f := by
  by_contra hne
  exact hg (h.pinned g hne (FrameTable.lt_of_info? hi))

theorem idle_ne_zero : m.idle ≠ 0 := by
  intro hzero
  obtain ⟨i, pid, hi, -⟩ := h.owned
  have hall := (Directory.idle_eq_zero h.sound.pool.size_le).mp hzero f i hi
  rw [h.pins_eq hi] at hall
  exact hall (List.count_eq_zero.mpr h.unpinned)

/-- A page of a process that lives lies in the frame. -/
theorem exists_mapped : ∃ q page, m.Registered q ∧ (m.table q).translate? page = some f := by
  obtain ⟨i, pid, hi, howner, hlives⟩ := h.owned
  obtain ⟨q, hq⟩ := Option.ne_none_iff_exists'.mp hlives
  obtain ⟨rfl, -⟩ := h.sound.census.registered pid q hq
  refine ⟨q, i.page, hq, h.sound.agreement.recorded f i q hi howner hq ?_⟩
  rw [h.loose]
  exact List.not_mem_nil

theorem exists_frameBits? : ∃ v, PageEntry.frameBits? f = some v := by
  obtain ⟨q, page, -, hmapped⟩ := h.exists_mapped
  obtain ⟨e, -, hf⟩ := Option.bind_eq_some_iff.mp hmapped
  exact PageEntry.exists_frameBits? hf

theorem not_orphaned (hi : m.frameInfo? g = some i) (hpins : i.pins = 0) (pid : ProcessId) :
    ¬ m.Orphaned g pid := by
  obtain rfl := h.eq_of_not_mem hi (List.count_eq_zero.mp (h.pins_eq hi ▸ hpins))
  rintro ⟨⟨page, howner⟩, hdead⟩
  obtain ⟨j, pid', hj, hjowner, hlives⟩ := h.owned
  rw [ownerOf?_of_info hj, hjowner, Option.map_some, Option.some.injEq, Prod.mk.injEq] at howner
  exact hlives (howner.1 ▸ hdead)

theorem alike (ha : Alike m m') : m'.OnlyIdle l f := by
  obtain ⟨i, pid, hi, howner, hlives⟩ := h.owned
  obtain ⟨j, hj, hjowner, -⟩ := ha.frameInfo? hi
  refine ⟨h.sound.alike ha, h.loose, h.unpinned, fun g hne hlt => h.pinned g hne ?_, j, pid, hj,
    hjowner.trans howner, ?_⟩
  · rw [ha.marks.1]
    exact hlt
  · rw [ha.process?]
    exact hlives

end OnlyIdle

end Machine

namespace Machine

variable {m m' m₁ : Machine} {l : Ledger} {f : FrameNumber}

/-- The frame `f` is still the only one without a pin, and as far as pinned frames and the rights of
processes go nothing has changed. -/
structure Passes (m m' : Machine) (l : Ledger) (f : FrameNumber) : Prop where
  onlyIdle : m'.OnlyIdle l f
  rights : m.SameRights m' l.processes
  owners : ∀ g ∈ l.pinned, m'.ownerOf? g = m.ownerOf? g

theorem Passes.refl (h : m.OnlyIdle l f) : m.Passes m l f :=
  ⟨h, (Orderly.refl m _).sameRights, fun _ _ => rfl⟩

theorem Passes.trans (h : m.Passes m₁ l f) (h' : m₁.Passes m' l f) : m.Passes m' l f :=
  ⟨h'.onlyIdle, h.rights.trans h'.rights, fun g hg => (h'.owners g hg).trans (h.owners g hg)⟩

/-- A pinned frame is as it was, but for its mark. -/
theorem Passes.frameInfo? (hpasses : m.Passes m' l f) (h : m.OnlyIdle l f) {g : FrameNumber}
    (hg : g ∈ l.pinned) :
    (m'.frameInfo? g).map FrameInfo.unmarked = (m.frameInfo? g).map FrameInfo.unmarked := by
  obtain ⟨i, hi, -, howner⟩ := h.sound.info_of_pinned hg
  obtain ⟨pid, hpid⟩ := Option.ne_none_iff_exists'.mp howner
  have howns := hpasses.owners g hg
  rw [ownerOf?_of_info hi, hpid, Option.map_some] at howns
  obtain ⟨i', hi', hpid', hpage⟩ := ownerOf?_eq_some.mp howns
  have hpins : i'.pins = i.pins := (hpasses.onlyIdle.pins_eq hi').trans (h.pins_eq hi).symm
  rw [hi, hi', Option.map_some, Option.map_some, FrameInfo.unmarked, FrameInfo.unmarked, hpid, hpid',
    hpage, hpins]

/-- A page is attained in frame `g` of the machine `m₁`, it is used, and the frame is let go. -/
theorem OnlyIdle.passes {p : UserProcess} {g : FrameNumber} {i : FrameInfo ProcessId}
    (h : m.OnlyIdle l f) (hp : m.Registered p) (hkeeps : Keeps m m₁ l.pinned)
    (hsame : g ≠ f → m₁.frameInfo? f = m.frameInfo? f) (hi : m₁.frameInfo? g = some i)
    (howner : i.owner = some p.pid) (hsound : m'.Sound l)
    (hinfo : ∀ g', m'.frameInfo? g' =
      if g' = g then some { i with pins := i.pins - 1 } else m₁.frameInfo? g')
    (hrights : m.SameRights m' l.processes) : m.Passes m' l f := by
  refine ⟨⟨hsound, h.loose, h.unpinned, fun g' hne hlt => ?_, ?_⟩, hrights, fun g' hg' => ?_⟩
  · exact h.pinned g' hne (hrights.size ▸ hlt)
  · by_cases hgf : g = f
    · refine ⟨_, p.pid, (hinfo f).trans (if_pos hgf.symm), howner, ?_⟩
      rw [hrights.registry, show m.process? p.pid = some p from hp]
      exact Option.some_ne_none _
    · obtain ⟨j, pid, hj, hjowner, hlives⟩ := h.owned
      refine ⟨j, pid, ?_, hjowner, hrights.registry pid ▸ hlives⟩
      rw [hinfo f, if_neg (Ne.symm hgf), hsame hgf, hj]
  · obtain ⟨j, hj, -, -⟩ := h.sound.info_of_pinned hg'
    obtain ⟨j', hj', hjowner, hjpage⟩ := hkeeps.owner g' hg' j hj
    have hkept : m₁.ownerOf? g' = m.ownerOf? g' := by
      rw [ownerOf?_of_info hj, ownerOf?_of_info hj', hjowner, hjpage]
    rw [← hkept, ownerOf?, hinfo g']
    split
    · next heq =>
      rw [heq, ownerOf?, hi]
      rfl
    · rfl

end Machine

namespace Action

variable {m m' : Machine} {l : Ledger} {p : UserProcess} {page : PageNumber} {e : PageEntry}
  {f g : FrameNumber}

/-! ## Attempts that succeed -/

/-- A page is brought in, unless a page cannot be saved or loaded. -/
theorem exists_serveMiss_of_onlyIdle (h : m.OnlyIdle l f) (ha : m.Absent p page e)
    (hcontains : p.contains page = true) (himage : p.image.Answers)
    (hfails : ∀ err m', (serveMiss p page).run m = .error (.error err) m' → ¬ err.OfTransfer) :
    ∃ g m', (serveMiss p page).run m = .ok (.pinned g) m' := by
  have hmiss := serveMiss_cases h.sound ha
  cases hrun : (serveMiss p page).run m with
  | ok grant m' =>
    rw [hrun] at hmiss
    cases hmiss with
    | served => exact ⟨_, _, rfl⟩
    | queued idle => exact absurd idle h.idle_ne_zero
  | error stop m' =>
    rw [hrun] at hmiss
    cases hmiss with
    | uncleared cause =>
      cases stop with
      | error err =>
        obtain ⟨c, rfl⟩ := cause
        exact absurd trivial (hfails _ m' hrun)
      | violation v =>
        obtain ⟨g, pid, horphaned, ⟨i, hi, hpins⟩, -⟩ := cause
        exact absurd horphaned (h.not_orphaned hi hpins pid)
    | @unfit err g m' lt unpinned cause =>
      refine absurd ?_ (hfails err m' hrun)
      cases cause with
      | unreadable => exact trivial
      | unavailable content =>
        obtain ⟨e, rfl⟩ := UserProcess.exists_load_of_initialContent hcontains content
        exact trivial
      | unencodable bits =>
        -- the frame was taken from a page that had it in its entry
        have hgf : g = f := by
          by_contra hne
          exact unpinned (h.pinned g hne lt)
        obtain ⟨v, hv⟩ := h.exists_frameBits?
        rw [hgf, hv] at bits
        contradiction
    | image image => exact absurd image (p.initialContent_ne_violation himage page _)

/-- **A page that may be accessed is attained**, unless a page cannot be saved or loaded. -/
theorem exists_resolve_of_onlyIdle (h : m.OnlyIdle l f) (hp : m.Registered p)
    (he : m.entryOf? p page = some e) {kind : AccessKind}
    (hkind : (kind.isWrite && e.readOnly) = false) (hcontains : p.contains page = true)
    (himage : p.image.Answers)
    (hpins : ∀ g i, e.frame? = some g → m.frameInfo? g = some i → i.pins < FrameInfo.maxPins)
    (hfails : ∀ err m', (resolve p page kind).run m = .error (.error err) m' → ¬ err.OfTransfer) :
    ∃ g m', (resolve p page kind).run m = .ok (.pinned g) m' := by
  simp only [resolve, EStateM.run_bind, run_permittedEntry_of_entry hp he hkind] at hfails ⊢
  cases hf : e.frame? with
  | none =>
    rw [hf] at hfails
    exact exists_serveMiss_of_onlyIdle h ⟨hp, he, hf⟩ hcontains himage hfails
  | some g =>
    obtain ⟨m', hrun⟩ := exists_hit h.sound hp he hf (hpins g · hf)
    exact ⟨g, m', hrun⟩

/-- The page lies in the frame that it lay in before, or in the only one that there was for it. -/
theorem frame_of_resolve (h : m.OnlyIdle l f) (hp : p ∈ l.processes) {kind : AccessKind}
    (hrun : (resolve p page kind).run m = .ok (.pinned g) m') :
    g = ((m.table p).translate? page).getD f ∧ (g ≠ f → m'.frameInfo? f = m.frameInfo? f) := by
  obtain ⟨-, ⟨hmapped, i, hi, rfl⟩ | ⟨habsent, -⟩⟩ := of_run_resolve hrun
  · rw [hmapped, Option.getD_some]
    exact ⟨rfl, fun hne => (FrameTable.info?_withInfo hi _ f).trans (if_neg hne.symm)⟩
  · rw [habsent, Option.getD_none]
    have hspec := resolve_spec h.sound hp page kind
    rw [hrun] at hspec
    cases hspec with
    | pinned registered sound keeps info idle_le le_idle waiters orderly =>
      obtain ⟨i, hi, howner, hpage⟩ := info
      have hlt := FrameTable.lt_of_info? hi
      rw [orderly.size] at hlt
      have hgf : g = f := by
        by_contra hne
        -- the page would lie in a pinned frame already
        have hg := h.pinned g hne hlt
        obtain ⟨j, hj, -, -⟩ := h.sound.info_of_pinned hg
        obtain ⟨i', hi', howner', hpage'⟩ := keeps.owner g hg j hj
        rw [hi, Option.some.injEq] at hi'
        subst hi'
        obtain ⟨e, he, hf⟩ := h.sound.entry_of_pinned hg hj (howner'.symm.trans howner) registered
        rw [← hpage', hpage] at he
        rw [translate?_table, he, Option.bind_some, hf] at habsent
        contradiction
      exact ⟨hgf, fun hne => absurd hgf hne⟩

/-! ## The page is used -/

section Visit

variable {r : Request} {i : FrameInfo ProcessId} (h : m.Sound l) (hp : p ∈ l.processes)
  (hg : g ∈ l.pinned) (hi : m.frameInfo? g = some i) (howner : i.owner = some p.pid)
  (hpage : i.page = page) (hr : r.Single p page)
include h hp hg hi howner hpage hr

theorem exists_transfer : ∃ a m', (r.transfer p g).run m = .ok a m' ∧ m'.Sound l ∧
    m'.kernel.frames = m.kernel.frames ∧ m.SameRights m' l.processes := by
  have hcopy : ∀ c piece, r.copy? = some (c, piece) → i.page = piece.page →
      piece.offset.toNat + piece.amount ≤ pageSize → ∃ a m', (r.transfer p g).run m = .ok a m' ∧
        m'.Sound l ∧ m'.kernel.frames = m.kernel.frames ∧ m.SameRights m' l.processes := by
    intro c piece hc hpage hfits
    obtain ⟨c', m', hrun, hcopied⟩ := transfer_spec (c := c) h hp hg hi howner hpage hfits
    refine ⟨.copied c', m', ?_, hcopied.sound, hcopied.frames,
      (hcopied.orderly _ fun _ => rfl).sameRights⟩
    simp only [Request.transfer, hc, EStateM.run_bind, hrun, EStateM.run_pure]
  cases hr with
  | fault contains => exact ⟨.done, m, rfl, h, rfl, (Orderly.refl m _).sameRights⟩
  | read spans => exact hcopy _ _ rfl hpage spans.fits
  | write spans => exact hcopy _ _ rfl hpage spans.fits

end Visit

/-- **A page that was attained is used**, and its frame is let go. -/
theorem exists_visit {r : Request} {i : FrameInfo ProcessId}
    (h : m.Sound { l with pinned := g :: l.pinned }) (hp : p ∈ l.processes)
    (hi : m.frameInfo? g = some i) (howner : i.owner = some p.pid) (hpage : i.page = page)
    (hr : r.Single p page) : ∃ a m', (r.visit p g).run m = .ok a m' ∧ m'.Sound l ∧
      (∀ g', m'.frameInfo? g' = if g' = g then some { i with pins := i.pins - 1 }
        else m.frameInfo? g') ∧
      m'.waiters = (if 1 < i.pins then m.waiters else m.waiters.wakeOne.2) ∧
      m.SameRights m' l.processes := by
  obtain ⟨a, m₁, htransfer, hsound, hframes, hsame⟩ :=
    exists_transfer h hp List.mem_cons_self hi howner hpage hr
  have hi₁ : m₁.frameInfo? g = some i := by
    rw [frameInfo?, hframes]
    exact hi
  obtain ⟨j, hj, hpins, -⟩ := hsound.info_of_pinned List.mem_cons_self
  obtain rfl := Option.some.inj (hi₁.symm.trans hj)
  refine ⟨a, m₁.withFrames (m₁.kernel.frames.dropPin g i), ?_, hsound.dropPin rfl hi₁,
    fun g' => ?_, ?_, hsame.trans (Orderly.dropPin hi₁ _).sameRights⟩
  · simp only [Request.visit, EStateM.run_bind, htransfer, run_unpin hi₁ hpins, EStateM.run_pure]
  · refine (FrameTable.info?_dropPin hi₁ g').trans ?_
    rw [frameInfo?, ← hframes]
  · rw [waiters, waiters, ← hframes]
    exact FrameTable.waiters_dropPin ..

end Action

end DemandPaging
