import DemandPaging.Proofs.Configuration
import DemandPaging.Proofs.FlatCopies
import DemandPaging.Proofs.SingleCalls

/-!
# Copies that nobody disturbs

A copy goes through memory page by page, and each page that is not resident has to be brought in. When
nothing else happens, every round leaves the machine as ready for the next page as it was before
(`Machine.Ready`): the pin that it took is dropped again, and what it evicted can be brought in
again. What a round changes is the page that it writes to (`Machine.Visited`). So a read returns if its
pages can be had, and a whole page is written or read in one round (`Call.exists_run_write_page`,
`Call.exists_run_read_page`).
-/

namespace DemandPaging

open Machine

namespace Machine

variable {m m' m'' : Machine} {l : Ledger} {p : UserProcess}

/-- Pages can be brought in, as far as frames and store are concerned, one after the other. -/
structure Ready (m : Machine) (l : Ledger) : Prop where
  sound : m.Sound l
  intact : l.broken = []
  store : m.kernel.swap.Faultless
  small : m.kernel.frames.directory.size ≤ maxEntryFrame + 1
  idle : m.idle ≠ 0
  pins : ∀ f i, m.frameInfo? f = some i → i.pins < FrameInfo.maxPins

/-- The pages of `p` can be read, and those that the executable does not protect can be written. -/
structure Readable (m : Machine) (l : Ledger) (p : UserProcess) : Prop where
  ready : m.Ready l
  registered : m.Registered p
  marked : ∀ page, m.readOnly? p page = (p.layout.source? page).map p.image.protects
  provided : ∀ page, p.contains page = true → ∃ content, p.initialContent page = .ok content

/-- The machine is ready still. Register, number of frames and configuration are as before, and so are
the read-only bits of all processes. -/
structure StaysReady (m m' : Machine) (l : Ledger) : Prop where
  ready : m'.Ready l
  registry : ∀ pid : ProcessId, m'.process? pid = m.process? pid
  size : m'.kernel.frames.directory.size = m.kernel.frames.directory.size
  config : m'.kernel.config = m.kernel.config
  readOnly : ∀ q ∈ l.processes, ∀ page, m'.readOnly? q page = m.readOnly? q page

theorem StaysReady.trans (h : m.StaysReady m' l) (h' : m'.StaysReady m'' l) : m.StaysReady m'' l where
  ready := h'.ready
  registry pid := (h'.registry pid).trans (h.registry pid)
  size := h'.size.trans h.size
  config := h'.config.trans h.config
  readOnly q hq page := (h'.readOnly q hq page).trans (h.readOnly q hq page)

theorem StaysReady.registered (h : m.StaysReady m' l) (p : UserProcess) :
    m'.Registered p ↔ m.Registered p := by
  rw [Registered, h.registry]
  rfl

theorem Ready.stays (h : m.Ready l) : m.StaysReady m l :=
  ⟨h, fun _ => rfl, rfl, rfl, fun _ _ _ => rfl⟩

/-- What leaves the pins as they are leaves the machine ready. -/
theorem Ready.next (h : m.Ready l) (hsound : m'.Sound l)
    (hsize : m'.kernel.frames.directory.size = m.kernel.frames.directory.size)
    (hstore : m'.kernel.swap.Faultless) : m'.Ready l := by
  have hpins := h.sound.pins_eq hsound hsize rfl rfl
  refine ⟨hsound, h.intact, hstore, hsize ▸ h.small, fun hidle => h.idle ?_, fun f j hj => ?_⟩
  · rw [Directory.idle_eq_zero hsound.pool.size_le] at hidle
    rw [Directory.idle_eq_zero h.sound.pool.size_le]
    intro f i hi
    have hsame := hpins f
    rw [show m.frameInfo? f = some i from hi, Option.map_some, Option.map_eq_some_iff] at hsame
    obtain ⟨j, hj, hij⟩ := hsame
    exact hij ▸ hidle f j hj
  · have hsame := (hpins f).symm
    rw [hj, Option.map_some, Option.map_eq_some_iff] at hsame
    obtain ⟨i, hi, hij⟩ := hsame
    exact hij ▸ h.pins f i hi

/-- An event leaves the machine ready. -/
theorem Ready.noted (h : m.Ready l) (ev : Event) : m.StaysReady (m.noted ev) l where
  ready := h.next (h.sound.alike (.noted m ev)) rfl h.store
  registry _ := rfl
  size := rfl
  config := rfl
  readOnly _ _ _ := rfl

/-- The pages can be read as long as the machine stays ready. -/
theorem Readable.next (h : m.Readable l p) (hstays : m.StaysReady m' l) : m'.Readable l p where
  ready := hstays.ready
  registered := (hstays.registered p).mpr h.registered
  marked page :=
    (hstays.readOnly p (h.ready.sound.census.mem h.registered) page).trans (h.marked page)
  provided := h.provided

/-- A page of the address space has an entry. -/
theorem Readable.exists_entry {page : PageNumber} (h : m.Readable l p)
    (hpage : p.contains page = true) : ∃ e, m.entryOf? p page = some e := by
  obtain ⟨source, hsource⟩ := p.layout.exists_source hpage
  have hbit := h.marked page
  rw [hsource, Option.map_some, readOnly?, Option.map_eq_some_iff] at hbit
  obtain ⟨e, he, -⟩ := hbit
  exact ⟨e, he⟩

theorem Readable.canServe (h : m.Readable l p) (page : PageNumber) : m.CanServe p page := by
  unfold CanServe
  split
  · exact fun i hi => h.ready.pins _ i hi
  · exact ⟨h.ready.idle, h.ready.small, h.ready.sound.not_orphaned h.ready.intact, h.ready.store⟩

/-- The copy `c` of `p` has become `c'`: the page of a piece was attained, the bytes of the piece were
copied, and the page was let go. -/
structure Visited (m m' : Machine) (l : Ledger) (p : UserProcess) (c c' : Copy) (piece : CopyPiece) :
    Prop where
  stays : m.StaysReady m' l
  content : ∀ q page, m.Registered q → (c.kind = .write → (q.pid, page) ≠ (p.pid, piece.page)) →
    m'.content? q page = m.content? q page
  copied : ∃ old, m.content? p piece.page = some old ∧
    (c.kind = .read ∧ c' = c.afterRead piece (old.bytes.slice piece.offset.toNat piece.amount) ∨
      c.kind = .write ∧ c' = c.afterWrite piece ∧
        ∃ new, old.write? piece.offset.toNat (c.outgoing piece) = some new ∧
          m'.content? p piece.page = some new)

end Machine

namespace Action

variable {m m' : Machine} {p : UserProcess} {page : PageNumber} {content : Page} {g : Grant}
  {kind : AccessKind}

/-- An attempt leaves a faultless store faultless. -/
theorem faultless_of_resolve (hstore : m.kernel.swap.Faultless)
    (hrun : (resolve p page kind).run m = .ok g m') : m'.kernel.swap.Faultless := by
  have hadmits : Admits (·.kernel.swap.Faultless) fun _ => True :=
    ⟨fun _ _ _ _ _ _ => trivial, fun _ _ _ _ _ => trivial, fun _ => trivial⟩
  have hstands : Stands (·.kernel.swap.Faultless) (fun _ => True) (resolve p page kind) :=
    bears_faultless.stands_resolve hadmits (fun _ _ => trivial) trivial trivial trivial kind
  have hend := hstands m hstore
  rw [hrun] at hend
  exact hend.1

end Action

namespace Call

variable {m m' : Machine} {l : Ledger} {p : UserProcess} {copy : Copy} {piece : CopyPiece}
  {purpose : Purpose} {rest : List Task}

/-- A page that may be accessed is attained, used and let go. -/
theorem exists_visit (h : m.Readable l p) (hturn : copy.turn p.layout = .piece piece)
    (hwrite : copy.kind = .write → m.readOnly? p piece.page = some false) :
    ∃ f i copy' m₁ m₂, (Action.resolve p piece.page copy.kind).run m = .ok (.pinned f) m₁ ∧
      (Action.transfer p copy piece f).run m₁ = .ok copy' m₂ ∧
      m₂.frameInfo? f = some i ∧ i.pins ≠ 0 ∧
      m.Visited (m₂.withFrames (m₂.kernel.frames.dropPin f i)) l p copy copy' piece := by
  have hsound := h.ready.sound
  have hp := hsound.census.mem h.registered
  have hcontains : p.contains piece.page = true := by
    obtain ⟨-, a, -, hin, rfl⟩ := Copy.turn_eq_piece.mp hturn
    exact hin
  obtain ⟨e, he⟩ := h.exists_entry hcontains
  obtain ⟨content, hcontent⟩ := h.provided piece.page hcontains
  have hkind : (copy.kind.isWrite && e.readOnly) = false := by
    cases hk : copy.kind with
    | read => rfl
    | write =>
      have hbit := hwrite hk
      rw [readOnly?, he, Option.map_some, Option.some.injEq] at hbit
      rw [hbit, Bool.and_false]
  obtain ⟨f, m₁, hresolve⟩ :=
    Action.exists_pinned_of_canServe hsound h.registered he hkind hcontent (h.canServe piece.page)
  have hspec := Action.resolve_spec hsound hp piece.page copy.kind
  rw [hresolve] at hspec
  cases hspec with
  | pinned registered sound keeps info idle_le le_idle waiters orderly =>
    obtain ⟨i, hi, howner, hpage⟩ := info
    have hreg₁ := (orderly.registered p).mpr h.registered
    obtain ⟨copy', m₂, htransfer, hcopied⟩ := Action.transfer_spec (c := copy) sound hp
      List.mem_cons_self hi howner hpage (Copy.piece_fits hturn)
    have hi₂ : m₂.frameInfo? f = some i := by
      rw [frameInfo?, hcopied.frames]
      exact hi
    have hpins : i.pins ≠ 0 := fun hpins => (sound.not_pinned hi hpins).1 List.mem_cons_self
    have hdrop : Orderly m₂ (m₂.withFrames (m₂.kernel.frames.dropPin f i)) l.processes none :=
      .dropPin hi₂ _
    have hwritten := hcopied.orderly _ fun _ => rfl
    have hconfig₁ := tolerant_sameConfig.ensures_resolve p piece.page copy.kind m
    rw [hresolve] at hconfig₁
    have hconfig₂ := tolerant_sameConfig.ensures_transfer p copy piece f m₁
    rw [htransfer] at hconfig₂
    have hstore : m₂.kernel.swap.Faultless := by
      obtain ⟨-, -, m₃, rfl, hm₃⟩ := Action.of_run_transfer htransfer
      have hstore₁ := Action.faultless_of_resolve h.ready.store hresolve
      obtain ⟨-, rfl⟩ | ⟨-, b, -, rfl⟩ := hm₃ <;> exact hstore₁
    have hkept : ∀ q page, m₂.Registered q →
        (m₂.withFrames (m₂.kernel.frames.dropPin f i)).content? q page = m₂.content? q page :=
      (Keeps.dropPin hi₂ l.pinned).content
    have hcontent₁ : ∀ q page, m.Registered q →
        (copy.kind = .write → (q.pid, page) ≠ (p.pid, piece.page)) →
        m₂.content? q page = m.content? q page := fun q page hq hne =>
      (hcopied.content q page ((keeps.registered q).mpr hq) hne).trans (keeps.content q page hq)
    have hreg₂ : ∀ q, m.Registered q → m₂.Registered q := fun q hq => by
      rw [Registered, hcopied.registry]
      exact (keeps.registered q).mpr hq
    obtain ⟨old, hold, hcopy'⟩ := Action.exists_of_run_transfer sound List.mem_cons_self hi howner
      hpage (Copy.piece_fits hturn) hreg₁ htransfer
    have hsize := hdrop.size.trans (hwritten.size.trans orderly.size)
    refine ⟨f, i, copy', m₁, m₂, hresolve, htransfer, hi₂, hpins,
      ⟨h.ready.next (hcopied.sound.dropPin rfl hi₂) hsize hstore, fun pid => ?_, hsize,
        hconfig₂.trans hconfig₁, fun q hq page => ?_⟩, fun q page hq hne => ?_, old, ?_, ?_⟩
    · rw [hdrop.registry, hwritten.registry, orderly.registry]
    · rw [hdrop.readOnly q hq, hwritten.readOnly q hq, orderly.readOnly q hq]
    · rw [hkept q page (hreg₂ q hq), hcontent₁ q page hq hne]
    · rw [← keeps.content p piece.page h.registered, hold]
    · refine hcopy'.imp_right fun hwrote => ⟨hwrote.1, hwrote.2, ?_⟩
      obtain ⟨old', new, hold', hnew, hwritten⟩ := hcopied.written hwrote.1 hreg₁
      rw [hold, Option.some.injEq] at hold'
      subst hold'
      exact ⟨new, hnew, (hkept p piece.page (hreg₂ p h.registered)).trans hwritten⟩

/-- **A round of a copy**: a page is attained and used, and let go. -/
theorem exists_round (h : m.Readable l p) (hturn : copy.turn p.layout = .piece piece)
    (hwrite : copy.kind = .write → m.readOnly? p piece.page = some false) :
    ∃ copy' m', m.Visited m' l p copy copy' piece ∧
      ∀ k, runFor (k + 3) ⟨p, purpose, .copy copy :: rest, .seeking⟩ m =
        runFor k ⟨p, purpose, .copy copy' :: rest, .seeking⟩ m' := by
  obtain ⟨f, i, copy', m₁, m₂, hresolve, htransfer, hi, hpins, hvisited⟩ := exists_visit h hturn hwrite
  have hwanted : wanted? ⟨p, purpose, .copy copy :: rest, .seeking⟩ =
      some (piece.page, copy.kind) := by
    simp only [wanted?, hturn]
  let m₃ := m₂.withFrames (m₂.kernel.frames.dropPin f i)
  have hseek : step ⟨p, purpose, .copy copy :: rest, .seeking⟩ m =
      (.ongoing ⟨p, purpose, .copy copy :: rest, .holding f⟩, m₁) := by
    rw [step_of_seeking hwanted rfl, hresolve]
    rfl
  have huse : step ⟨p, purpose, .copy copy :: rest, .holding f⟩ m₁ =
      (.ongoing ⟨p, purpose, .copy copy' :: rest, .leaving f⟩, m₂) :=
    step_of_transfer rfl rfl hturn htransfer
  have hleave : step ⟨p, purpose, .copy copy' :: rest, .leaving f⟩ m₂ =
      (.ongoing ⟨p, purpose, .copy copy' :: rest, .seeking⟩, m₃) := step_of_leaving rfl hi hpins
  refine ⟨copy', m₃, hvisited, fun k => ?_⟩
  rw [runFor_of_ongoing hseek rfl, runFor_of_ongoing huse rfl, runFor_of_ongoing hleave rfl]

/-- **A copy inside one page that nobody disturbs** is over after one round. -/
theorem exists_runFor_of_whole (h : m.Readable l p) (hturn : copy.turn p.layout = .piece piece)
    (hwrite : copy.kind = .write → m.readOnly? p piece.page = some false)
    (hwhole : copy.length ≤ copy.done + piece.amount) :
    ∃ copy' m', m.Visited m' l p copy copy' piece ∧
      ∀ k, runFor (k + 4) ⟨p, .plain, [.copy copy], .seeking⟩ m =
        (.finished (.returned (.copied copy')), m') := by
  obtain ⟨copy', m', hvisited, hrun⟩ := exists_round h hturn hwrite
  have hdone : copy'.length ≤ copy'.done := by
    obtain ⟨old, -, ⟨-, rfl⟩ | ⟨-, rfl, -⟩⟩ := hvisited.copied <;> exact hwhole
  refine ⟨copy', m', hvisited, fun k => ?_⟩
  rw [show k + 4 = k + 1 + 3 from rfl, hrun]
  exact runFor_of_finished (step_of_copied hdone m') k

section WholePages

variable {start : VirtualAddress} {page : PageNumber} (h : m.Readable l p)
  (hstart : page.base? = some start) (hpage : p.contains page = true)
include h hstart hpage

/-- **A whole page that is written** has its new content, and no other page changes. -/
theorem exists_run_write_page (hwritable : m.readOnly? p page = some false) (new : Page) :
    ∃ c m', (Call.write p start new.bytes).run m = (.finished (.returned (.copied c)), m') ∧
      m.StaysReady m' l ∧ m'.content? p page = some new ∧
      ∀ q page', m.Registered q → (q.pid, page') ≠ (p.pid, page) →
        m'.content? q page' = m.content? q page' := by
  obtain ⟨rfl, hoffset, -, -⟩ := PageNumber.base?_spec hstart
  have hlength := new.length_bytes
  have hspans : p.Spans start new.bytes.length := ⟨by rw [hlength]; decide, by omega, hpage⟩
  obtain ⟨c, m', hvisited, hrun⟩ := exists_runFor_of_whole h hspans.turn_ofWrite
    (fun _ => hwritable) (Nat.le_of_eq (Nat.zero_add _).symm)
  obtain ⟨old, -, ⟨hread, -⟩ | ⟨-, -, found, hfound, hcontent⟩⟩ := hvisited.copied
  · cases hread
  · have hout : (Copy.ofWrite start new.bytes).outgoing ⟨start.page, start.offset, new.bytes.length⟩ =
        new.bytes := List.take_length
    have hbytes : found.bytes = new.bytes := by
      rw [Page.bytes_write? hfound, hout, hoffset, Bytes.overwrite, List.take_zero, List.nil_append,
        Nat.zero_add, hlength, ← old.length_bytes, List.drop_length, List.append_nil]
    have hsame : found = new := by
      cases found
      cases new
      cases hbytes
      rfl
    exact ⟨c, m', hrun _, hvisited.stays, hsame ▸ hcontent,
      fun q page' hq hne => hvisited.content q page' hq fun _ => hne⟩

/-- **A whole page that is read** is found as it is, and no page changes. -/
theorem exists_run_read_page {content : Page} (hcontent : m.content? p page = some content) :
    ∃ c m', (Call.read p start pageSize).run m = (.finished (.returned (.copied c)), m') ∧
      m.StaysReady m' l ∧ c.bytes = content.bytes ∧
      ∀ q page', m.Registered q → m'.content? q page' = m.content? q page' := by
  obtain ⟨rfl, hoffset, -, -⟩ := PageNumber.base?_spec hstart
  have hspans : p.Spans start pageSize := ⟨by decide, by omega, hpage⟩
  obtain ⟨c, m', hvisited, hrun⟩ := exists_runFor_of_whole h hspans.turn (nomatch ·)
    (Nat.le_of_eq (Nat.zero_add _).symm)
  refine ⟨c, m', hrun _, hvisited.stays, ?_,
    fun q page' hq => hvisited.content q page' hq (nomatch ·)⟩
  obtain ⟨old, hold, ⟨-, rfl⟩ | ⟨hwrite, -⟩⟩ := hvisited.copied
  · cases hcontent.symm.trans hold
    rw [Copy.bytes_afterRead, hoffset, Bytes.slice, List.drop_zero,
      List.take_of_length_le (Nat.le_of_eq content.length_bytes)]
    rfl
  · cases hwrite

end WholePages

/-- **A read that nobody disturbs returns.** -/
theorem exists_runFor_of_readable (hpurpose : purpose ≠ .spawn) (h : m.Readable l p)
    (hkind : copy.kind = .read) {k : Nat} (hk : 3 * (copy.length - copy.done) < k) :
    ∃ copy' m', runFor k ⟨p, purpose, [.copy copy], .seeking⟩ m =
      (.finished (.returned (purpose.answer copy')), m') := by
  induction k using Nat.strongRecOn generalizing copy m with
  | ind k ih =>
    by_cases hpiece : ∃ piece, copy.turn p.layout = .piece piece
    · obtain ⟨piece, hturn⟩ := hpiece
      have hread : copy.kind ≠ .write := by
        rw [hkind]
        decide
      obtain ⟨copy', m', hvisited, hrun⟩ := exists_round h hturn fun hwrite => absurd hwrite hread
      obtain ⟨old, -, ⟨-, rfl⟩ | ⟨hwrite, -⟩⟩ := hvisited.copied
      · have hlt := Copy.lt_of_turn hturn
        have hpos := Copy.amount_pos hturn
        obtain ⟨k, rfl⟩ := Nat.exists_eq_add_of_le' (show 3 ≤ k by omega)
        rw [hrun]
        refine ih k (by omega) (h.next hvisited.stays) hkind ?_
        change 3 * (copy.length - (copy.done + piece.amount)) < k
        omega
      · exact absurd hwrite hread
    · have hcopies : (⟨p, purpose, [.copy copy], .seeking⟩ : Call).Copies purpose p copy :=
        ⟨hpurpose, rfl, rfl, rfl, fun _ => nofun⟩
      obtain ⟨m', hstep⟩ :=
        hcopies.step_of_seeking (m := m) rfl fun piece hturn => hpiece ⟨piece, hturn⟩
      obtain ⟨k, rfl⟩ := Nat.exists_eq_add_one_of_ne_zero (Nat.ne_zero_of_lt hk)
      exact ⟨copy, m', runFor_of_finished hstep k⟩

end Call

end DemandPaging
