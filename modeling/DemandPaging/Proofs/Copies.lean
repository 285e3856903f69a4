import DemandPaging.Kernel.Copy
import DemandPaging.Proofs.Faults

/-!
# Copies on sound machines

A copy of one piece always succeeds, since its frame is pinned and the piece lies inside its page. A
read changes nothing but marks, and a write changes the bytes of one page of one process.
-/

namespace DemandPaging

open Machine

/-! ## Pieces -/

/-- A byte of a slice. -/
theorem Bytes.getElem?_slice {bs : Bytes} {start n k : Nat} (hk : k < n) :
    (bs.slice start n)[k]? = bs[start + k]? := by
  rw [slice, List.getElem?_take_of_lt hk, List.getElem?_drop]

namespace Copy

variable {c : Copy} {l : Layout} {piece : CopyPiece}

/-- **There is a piece to go** while bytes are left and the next of them has an address in the
address space; the piece begins there. -/
theorem turn_eq_piece : c.turn l = .piece piece ↔ c.done < c.length ∧
    ∃ a, c.start.add? c.done = some a ∧ l.contains a.page = true ∧ piece = c.pieceAt a := by
  unfold turn
  by_cases hdone : c.length ≤ c.done
  · rw [if_pos hdone]
    exact ⟨nofun, fun h => absurd h.1 (Nat.not_lt.mpr hdone)⟩
  · rw [if_neg hdone]
    cases ha : c.start.add? c.done with
    | none => exact ⟨nofun, fun ⟨_, a, hnone, _⟩ => nomatch hnone⟩
    | some a =>
      by_cases hin : l.contains a.page = true
      · simp only [hin, if_true, CopyTurn.piece.injEq]
        refine ⟨fun heq => ⟨Nat.not_le.mp hdone, a, rfl, hin, heq.symm⟩, ?_⟩
        rintro ⟨-, b, hb, -, rfl⟩
        rw [Option.some.inj hb]
      · simp only [hin, if_false, Bool.false_eq_true]
        refine ⟨nofun, ?_⟩
        rintro ⟨-, b, hb, hin', -⟩
        exact absurd (Option.some.inj hb ▸ hin') hin

/-- A copy that has a piece to go has bytes left. -/
theorem lt_of_turn (h : c.turn l = .piece piece) : c.done < c.length := (turn_eq_piece.mp h).1

/-- The piece that comes next begins with the next byte. -/
theorem exists_of_turn (h : c.turn l = .piece piece) :
    ∃ a, c.start.add? c.done = some a ∧ piece = c.pieceAt a := by
  obtain ⟨-, a, ha, -, heq⟩ := turn_eq_piece.mp h
  exact ⟨a, ha, heq⟩

/-- A piece that comes next is not empty. -/
theorem amount_pos (h : c.turn l = .piece piece) : 0 < piece.amount := by
  have hlt := lt_of_turn h
  obtain ⟨a, -, rfl⟩ := exists_of_turn h
  have hoffset := a.offset.toNat_lt
  simp only [pieceAt, PageOffset.remaining]
  omega

/-- A piece that comes next lies inside its page. -/
theorem piece_fits (h : c.turn l = .piece piece) :
    piece.offset.toNat + piece.amount ≤ pageSize := by
  obtain ⟨a, -, rfl⟩ := exists_of_turn h
  have hlt := a.offset.toNat_lt
  have hle : (c.pieceAt a).amount ≤ pageSize - a.offset.toNat := Nat.min_le_right ..
  change a.offset.toNat + (c.pieceAt a).amount ≤ pageSize
  omega

/-- A write hands out no more bytes than the piece holds. -/
theorem length_outgoing_le (c : Copy) (piece : CopyPiece) :
    (c.outgoing piece).length ≤ piece.amount := List.length_take_le ..

end Copy

/-! ## Marks -/

namespace Machine

variable {m : Machine} {l : Ledger} {p : UserProcess} {f : FrameNumber}
  {i : FrameInfo ProcessId} {page : PageNumber}

/-! ## The effect of a copy -/

/-- What the copy of a piece leaves behind. -/
structure Copied (m m' : Machine) (l : Ledger) (p : UserProcess) (c : Copy) (piece : CopyPiece)
    (f : FrameNumber) : Prop where
  sound : m'.Sound l
  frames : m'.kernel.frames = m.kernel.frames
  registry : ∀ pid, m'.process? pid = m.process? pid
  orderly : ∀ target, (c.kind = .write → target = some (p.pid, piece.page)) →
    Orderly m m' l.processes target
  /-- Apart from the page written to, every page is as before. -/
  content : ∀ q page, m.Registered q → (c.kind = .write → (q.pid, page) ≠ (p.pid, piece.page)) →
    m'.content? q page = m.content? q page
  /-- Apart from the frame written to, every frame is as before. -/
  bytes : ∀ g, (c.kind = .write → g ≠ f) →
    m'.kernel.memory.frames[g.toNat]? = m.kernel.memory.frames[g.toNat]?
  /-- The page written to has the bytes of the piece. -/
  written : c.kind = .write → m.Registered p → ∃ old new, m.content? p piece.page = some old ∧
    old.write? piece.offset.toNat (c.outgoing piece) = some new ∧
    m'.content? p piece.page = some new

/-- A mark is no change but of the page that is written to. -/
theorem Orderly.markAccess {ps : List UserProcess} (hc : m.Census ps) (hp : p ∈ ps)
    (page : PageNumber) (write : Bool) {target : Option (ProcessId × PageNumber)}
    (htarget : write = true → target = some (p.pid, page)) :
    Orderly m (m.withTable p ((m.table p).markAccess page write)) ps target := by
  have hsame : (m.table p).markAccess page write = m.table p →
      Orderly m (m.withTable p ((m.table p).markAccess page write)) ps target := by
    intro heq
    rw [heq, withTable_table]
    exact (Orderly.refl m ps).with_target target
  rcases (m.table p).valid_cases page with ⟨e, he, hvalid⟩ | hinvalid
  · rw [PageTable.markAccess_of_valid he hvalid]
    refine Orderly.withEntry hc hp he (e.readOnly_accessed write) (fun hd => ?_)
      (Or.inr (Or.inr (e.frame?_accessed write)))
    rw [e.dirty_accessed, Bool.or_eq_true] at hd
    exact hd.symm.imp_right htarget
  · exact hsame (PageTable.markAccess_of_invalid hinvalid write)

section Access

variable (h : m.Sound l) (hp : p ∈ l.processes) (hi : m.frameInfo? f = some i)
  (howner : i.owner = some p.pid) (hpage : i.page = page)
include h hp hi howner hpage

/-- Only the owner of a frame maps it, and only for the page on record. -/
theorem Sound.eq_of_mapped {q : UserProcess} {page' : PageNumber} (hq : m.Registered q)
    (ht : (m.table q).translate? page' = some f) : q = p ∧ page' = page := by
  obtain ⟨j, hj, hjowner, hjpage⟩ := h.agreement.mapped q page' f hq ht
  rw [hi, Option.some.injEq] at hj
  rw [← hj, howner, Option.some.injEq] at hjowner
  rw [← hj, hpage] at hjpage
  exact ⟨h.census.eq_of_pid (h.census.mem hq) hp hjowner.symm, hjpage.symm⟩

/-- Noting an access in the page table is no change, and after a write the page is dirty. -/
theorem Sound.markAccess (hf : f ∈ l.pinned) (write : Bool) :
    ∃ m', m' = m.withTable p ((m.table p).markAccess page write) ∧ m'.Sound l ∧
      Keeps m m' l.pinned ∧
      (∀ q page' e, m'.Registered q → m'.entryOf? q page' = some e → e.frame? = some f →
        write = true → e.dirty = true) := by
  refine ⟨_, rfl, ?_⟩
  by_cases hreg : m.Registered p
  · obtain ⟨e, he, hef⟩ := h.entry_of_pinned hf hi howner hreg
    rw [hpage] at he
    have hframe := e.frame?_accessed write
    have hdirty := e.dirty_accessed write
    rw [PageTable.markAccess_of_valid he (PageEntry.valid_of_frame? hef)]
    have hsound : (m.withEntry p page (e.accessed write)).Sound l :=
      h.reentry hreg he hframe fun hd => (Bool.or_eq_false_iff.mp (hdirty ▸ hd)).2
    refine ⟨hsound, .reentry h hreg he hframe _, fun q page' e₁ hq he₁ hf₁ hw => ?_⟩
    replace he₁ : (m.withEntry p page (e.accessed write)).entryOf? q page' = some e₁ := he₁
    have hmapped : ((m.withEntry p page (e.accessed write)).table q).translate? page' = some f := by
      rw [translate?_table, he₁, Option.bind_some, hf₁]
    obtain ⟨rfl, rfl⟩ := hsound.eq_of_mapped hp hi howner hpage hq hmapped
    rw [entryOf?_withEntry_self h.census hp he, Option.some.injEq] at he₁
    rw [← he₁, hdirty, hw, Bool.true_or]
  · have ht : ∀ q, m.Registered q →
        (m.withTable p ((m.table p).markAccess page write)).table q = m.table q := by
      intro q hq
      refine table_withTable_of_ne h.census hp (h.census.mem hq) ?_ _
      rintro rfl
      exact hreg hq
    refine ⟨h.sameTables rfl (sizes_withTable (PageTable.size_markAccess ..)) ht,
      .sameTables (kernel_withTable ..) ht _, fun q page' e hq he hf' _ => ?_⟩
    have hq' : m.Registered q := hq
    rw [entryOf?, ht q hq'] at he
    have hmapped : (m.table q).translate? page' = some f := by
      rw [PageTable.translate?, he, Option.bind_some, hf']
    exact absurd ((h.eq_of_mapped hp hi howner hpage hq' hmapped).1 ▸ hq') hreg

end Access

end Machine

namespace Action

variable {m : Machine} {l : Ledger} {p : UserProcess} {c : Copy} {piece : CopyPiece}
  {f : FrameNumber} {i : FrameInfo ProcessId}

/-- A read finds the bytes of its frame. -/
theorem run_transfer_read {old : Page} (hold : m.kernel.memory.frames[f.toNat]? = some old)
    (hfits : piece.offset.toNat + piece.amount ≤ pageSize) (hkind : c.kind = .read) :
    (transfer p c piece f).run m =
      .ok (c.afterRead piece (old.bytes.slice piece.offset.toNat piece.amount))
        (m.withTable p ((m.table p).markAccess piece.page false)) := by
  have hread : m.kernel.memory.read f piece.offset.toNat piece.amount =
      .ok (old.bytes.slice piece.offset.toNat piece.amount) := by
    simp only [PhysicalMemory.read, PhysicalMemory.frame, hold, bind, Except.bind, Page.read?,
      hfits, if_true]
  simp only [transfer, hkind, EStateM.run_bind, EStateM.run_get, hread, ofExcept,
    EStateM.run_pure, run_onTable, AccessKind.isWrite]

/-- A write that lies inside the page succeeds. -/
theorem exists_written (old : Page) (c : Copy)
    (hfits : piece.offset.toNat + piece.amount ≤ pageSize) :
    ∃ new, old.write? piece.offset.toNat (c.outgoing piece) = some new := by
  have hlength : piece.offset.toNat + (c.outgoing piece).length ≤ pageSize :=
    Nat.le_trans (Nat.add_le_add_left (c.length_outgoing_le piece) _) hfits
  rw [Page.write?, dif_pos hlength]
  exact ⟨_, rfl⟩

/-- A write changes the bytes of its frame. -/
theorem run_transfer_write {old new : Page} (hold : m.kernel.memory.frames[f.toNat]? = some old)
    (hnew : old.write? piece.offset.toNat (c.outgoing piece) = some new) (hkind : c.kind = .write) :
    (transfer p c piece f).run m = .ok (c.afterWrite piece)
      ((m.withBytes f new).withTable p ((m.table p).markAccess piece.page true)) := by
  have hlt := (Array.getElem?_eq_some_iff.mp hold).1
  have hwrite : (onMemory (·.write f piece.offset.toNat (c.outgoing piece))).run m =
      .ok () (m.withBytes f new) := by
    refine run_onMemory ?_
    simp only [PhysicalMemory.write, PhysicalMemory.frame, hold, bind, Except.bind, hnew,
      PhysicalMemory.setFrame, hlt, if_true]
  simp only [transfer, hkind, EStateM.run_bind, hwrite, EStateM.run_pure, run_onTable,
    AccessKind.isWrite]
  rfl

section Transfer

variable (h : m.Sound l) (hp : p ∈ l.processes) (hf : f ∈ l.pinned)
  (hi : m.frameInfo? f = some i) (howner : i.owner = some p.pid) (hpage : i.page = piece.page)
  (hfits : piece.offset.toNat + piece.amount ≤ pageSize)
include h hp hf hi howner hpage hfits

theorem transfer_read (hkind : c.kind = .read) :
    ∃ c' m', (transfer p c piece f).run m = .ok c' m' ∧ m.Copied m' l p c piece f := by
  obtain ⟨old, hold⟩ := h.exists_bytes hi
  obtain ⟨m', hm', hsound, hkeeps, -⟩ := h.markAccess hp hi howner hpage hf false
  refine ⟨c.afterRead piece (old.bytes.slice piece.offset.toNat piece.amount), m', ?_, ?_⟩
  · rw [run_transfer_read hold hfits hkind, hm']
  · have hkernel : m'.kernel = m.kernel := by rw [hm', kernel_withTable]
    refine ⟨hsound, by rw [hkernel], hkeeps.registry,
      fun target _ => hm' ▸ .markAccess h.census hp piece.page false nofun,
      fun q page hq _ => hkeeps.content q page hq,
      fun g _ => by rw [hkernel], fun hw => ?_⟩
    rw [hkind] at hw
    contradiction

theorem transfer_write (hkind : c.kind = .write) :
    ∃ c' m', (transfer p c piece f).run m = .ok c' m' ∧ m.Copied m' l p c piece f := by
  obtain ⟨old, hold⟩ := h.exists_bytes hi
  obtain ⟨m₁, hm₁, hsound, hkeeps, hdirty⟩ := h.markAccess hp hi howner hpage hf true
  obtain ⟨new, hnew⟩ := exists_written old c hfits
  have hkernel : m₁.kernel = m.kernel := by rw [hm₁, kernel_withTable]
  have hi₁ : m₁.frameInfo? f = some i := by
    rw [frameInfo?, hkernel]
    exact hi
  have hold₁ : m₁.kernel.memory.frames[f.toNat]? = some old := by rw [hkernel, hold]
  refine ⟨c.afterWrite piece, m₁.withBytes f new, ?_, ?_⟩
  · rw [run_transfer_write hold hnew hkind, hm₁]
    rfl
  · refine ⟨hsound.withBytes new fun q page e hq he hf' => hdirty q page e hq he hf' rfl, ?_,
      hkeeps.registry, fun target htarget => ?_, ?_, ?_, ?_⟩
    · rw [withBytes, kernel_withMemory, hkernel]
    · have hmark := Orderly.markAccess (m := m.withBytes f new) (h.census.congr rfl rfl rfl) hp
        piece.page true fun _ => htarget hkind
      have hall := (Orderly.withBytes m f new l.processes).trans hmark fun q hq => h.census.mem hq
      rw [hm₁]
      exact hall
    · intro q page hq hne
      have hq₁ : m₁.Registered q := (hkeeps.registered q).mpr hq
      rw [content?_withBytes_of_ne new, hkeeps.content q page hq]
      intro hmapped
      obtain ⟨rfl, rfl⟩ := hsound.eq_of_mapped hp hi₁ howner hpage hq₁ hmapped
      exact hne hkind rfl
    · intro g hg
      rw [bytes_withBytes_of_ne new (hg hkind), hkernel]
    · intro _ hreg
      have hreg₁ : m₁.Registered p := (hkeeps.registered p).mpr hreg
      obtain ⟨e, he, hef⟩ := h.entry_of_pinned hf hi howner hreg
      obtain ⟨e₁, he₁, hef₁⟩ := hsound.entry_of_pinned hf hi₁ howner hreg₁
      rw [hpage] at he he₁
      replace he₁ : (m₁.withBytes f new).entryOf? p piece.page = some e₁ := he₁
      refine ⟨old, new, ?_, hnew, ?_⟩
      · rw [content?_of_resident he hef, hold]
      · rw [content?_of_resident he₁ hef₁, bytes_withBytes_self hold₁]

/-- **A copy of a piece succeeds**, and changes no page but the one it writes to. -/
theorem transfer_spec :
    ∃ c' m', (transfer p c piece f).run m = .ok c' m' ∧ m.Copied m' l p c piece f := by
  cases hkind : c.kind with
  | read => exact transfer_read h hp hf hi howner hpage hfits hkind
  | write => exact transfer_write h hp hf hi howner hpage hfits hkind

omit hp in
/-- What a copy has become is known from the content of the page. -/
theorem exists_of_run_transfer (hreg : m.Registered p) {c' : Copy} {m' : Machine}
    (hrun : (transfer p c piece f).run m = .ok c' m') :
    ∃ old, m.content? p piece.page = some old ∧
      (c.kind = .read ∧ c' = c.afterRead piece (old.bytes.slice piece.offset.toNat piece.amount) ∨
        c.kind = .write ∧ c' = c.afterWrite piece) := by
  obtain ⟨e, he, hef⟩ := h.entry_of_pinned hf hi howner hreg
  rw [hpage] at he
  obtain ⟨old, hold⟩ := h.exists_bytes hi
  refine ⟨old, (content?_of_resident he hef).trans hold, ?_⟩
  cases hkind : c.kind with
  | read =>
    rw [run_transfer_read hold hfits hkind] at hrun
    cases hrun
    exact Or.inl ⟨rfl, rfl⟩
  | write =>
    obtain ⟨new, hnew⟩ := exists_written old c hfits
    rw [run_transfer_write hold hnew hkind] at hrun
    cases hrun
    exact Or.inr ⟨rfl, rfl⟩

end Transfer

end Action

end DemandPaging
