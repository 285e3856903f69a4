import DemandPaging.Proofs.Completions
import DemandPaging.Proofs.Transparency

/-!
# Copies are flat

A copy goes through memory page by page, and between its steps other calls run. Seen from outside it
is one copy of a string of bytes, however the range lies across pages.

How far a copy has come is said by `Copy.Reaches` on the side of its user and by `Machine.Overlaid`
on the side of memory. One more piece keeps both, and so does every other step of the call
(`Call.Carries`). At the end the whole range is copied, or all of it in front of the page that could
not be had.
-/

namespace DemandPaging

open Machine

/-! ## Addresses -/

namespace VirtualAddress

variable {a b : VirtualAddress} {n : Nat}

/-- Bytes that follow each other on a page have addresses that follow each other. -/
theorem mem_piece_iff (h : a.offset.toNat + n ≤ pageSize) :
    b.page = a.page ∧ a.offset.toNat ≤ b.offset.toNat ∧ b.offset.toNat < a.offset.toNat + n ↔
      a.toNat ≤ b.toNat ∧ b.toNat < a.toNat + n := by
  have hpage : b.page = a.page ↔ b.toNat / pageSize = a.toNat / pageSize := by
    rw [← toNat_page, ← toNat_page]
    exact PageNumber.toNat_inj.symm
  rw [toNat_offset] at h
  rw [hpage, toNat_offset, toNat_offset]
  simp only [pageSize] at *
  omega

/-- What is added at once can be added bit by bit. -/
theorem add?_add {d : Nat} (h : a.add? n = some b) : b.add? d = a.add? (n + d) := by
  rw [add?, add?, toNat_of_add? h, Nat.add_assoc]

/-- No address is too large that lies in an address space. -/
theorem exists_add? {pages d : Nat} (hmax : pages ≤ maxProcessPages)
    (h : a.toNat + d < pages * pageSize) : ∃ b, a.add? d = some b := by
  refine ⟨_, if_pos ?_⟩
  simp only [pageSize, maxProcessPages, wordBound] at *
  omega

end VirtualAddress

/-- What is known of two stretches of numbers is known of the stretch that they make up, if the second
begins where the first ends, or is empty. -/
theorem ite_stretch_append {α : Type} {P Q : Prop} [Decidable P] [Decidable Q]
    {lo mid n₁ n₂ b : Nat} {first second whole rest : α} (hmid : n₂ = 0 ∨ mid = lo + n₁)
    (hfirst : P → lo ≤ b → b < lo + n₁ → first = whole)
    (hsecond : P → mid ≤ b → b < mid + n₂ → second = whole) :
    (if P ∧ Q ∧ mid ≤ b ∧ b < mid + n₂ then second else
      if P ∧ Q ∧ lo ≤ b ∧ b < lo + n₁ then first else rest) =
      if P ∧ Q ∧ lo ≤ b ∧ b < lo + (n₁ + n₂) then whole else rest := by
  by_cases hboth : P ∧ Q
  · simp only [hboth.1, hboth.2, true_and]
    by_cases hlate : mid ≤ b ∧ b < mid + n₂
    · rw [if_pos hlate, if_pos (by omega), hsecond hboth.1 hlate.1 hlate.2]
    · rw [if_neg hlate]
      by_cases hearly : lo ≤ b ∧ b < lo + n₁
      · rw [if_pos hearly, if_pos (by omega), hfirst hboth.1 hearly.1 hearly.2]
      · rw [if_neg hearly, if_neg (by omega)]
  · rw [if_neg (fun h => hboth ⟨h.1, h.2.1⟩), if_neg (fun h => hboth ⟨h.1, h.2.1⟩),
      if_neg (fun h => hboth ⟨h.1, h.2.1⟩)]

/-! ## The buffer -/

namespace Copy

variable {c₀ c : Copy} {p : UserProcess} {m₀ : Machine} {piece : CopyPiece}
  {seen : VirtualAddress → Prop}

/-- The bytes of the range that lie in the address space. -/
def reach (c : Copy) (l : Layout) : Nat := min c.length (l.numPages * pageSize - c.start.toNat)

/-- The copy `c₀` has come as far as `c`, page by page. If it reads, it has found what was there in
`m₀`, at the addresses that are `seen`. If it writes, the bytes behind those that are written are
pending. -/
structure Reaches (c₀ c : Copy) (p : UserProcess) (m₀ : Machine) (seen : VirtualAddress → Prop) :
    Prop where
  kind : c.kind = c₀.kind
  start : c.start = c₀.start
  length : c.length = c₀.length
  bound : c.done ≤ c₀.reach p.layout
  aligned : c.done = 0 ∨ c.done = c₀.length ∨ (c₀.start.toNat + c.done) % pageSize = 0
  found : c₀.kind = .read → c.bytes.length = c.done ∧ ∀ b, seen b →
    c₀.start.toNat ≤ b.toNat → b.toNat < c₀.start.toNat + c.done →
    c.bytes[b.toNat - c₀.start.toNat]? = m₀.byte? p b
  pending : c₀.kind = .write →
    c₀.pending.length = c₀.length ∧ c.pending = c₀.pending.drop c.done

/-- A read that has not begun. -/
theorem reaches_ofRead (p : UserProcess) (m₀ : Machine) (start : VirtualAddress) (n : Nat) :
    Reaches (ofRead start n) (ofRead start n) p m₀ seen :=
  ⟨rfl, rfl, rfl, Nat.zero_le _, Or.inl rfl,
    fun _ => ⟨rfl, fun _ _ hle hlt => absurd hlt (Nat.not_lt.mpr hle)⟩, nofun⟩

/-- A write that has not begun. -/
theorem reaches_ofWrite (p : UserProcess) (m₀ : Machine) (start : VirtualAddress) (data : Bytes) :
    Reaches (ofWrite start data) (ofWrite start data) p m₀ seen :=
  ⟨rfl, rfl, rfl, Nat.zero_le _, Or.inl rfl, nofun, fun _ => ⟨rfl, rfl⟩⟩

section Reaches

variable (h : Reaches c₀ c p m₀ seen)
include h

/-- **The piece that comes next** begins with the next byte, and unless it is the first one with a
page. It ends with the copy or with the page, and inside the address space. -/
theorem Reaches.next (hturn : c.turn p.layout = .piece piece) :
    ∃ a, c₀.start.add? c.done = some a ∧ piece.page = a.page ∧ piece.offset = a.offset ∧
      (c.done = 0 ∨ a.offset.toNat = 0) ∧ c.done < c₀.reach p.layout ∧
      c.done + piece.amount ≤ c₀.reach p.layout ∧
      (c.done + piece.amount = c₀.length ∨
        (c₀.start.toNat + (c.done + piece.amount)) % pageSize = 0) := by
  obtain ⟨hlt, a, ha, hcontains, rfl⟩ := turn_eq_piece.mp hturn
  rw [h.start] at ha
  have hinside : a.page.toNat < p.layout.numPages := of_decide_eq_true hcontains
  have htoNat := VirtualAddress.toNat_of_add? ha
  have haligned := h.aligned
  change a.page.val.toNat < _ at hinside
  rw [VirtualAddress.toNat_page, Nat.div_lt_iff_lt_mul (by decide)] at hinside
  have hoffset := VirtualAddress.toNat_offset a
  have hpage : a.toNat - a.offset.toNat + pageSize ≤ p.layout.numPages * pageSize := by
    simp only [pageSize] at *
    omega
  rw [h.length] at hlt
  refine ⟨a, ha, rfl, rfl, ?_, ?_, ?_, ?_⟩ <;>
    simp only [pieceAt, PageOffset.remaining, reach, h.length, pageSize] at * <;> omega

/-- When no piece comes next, all bytes of the range that lie in the address space are copied. -/
theorem Reaches.done_eq (hmax : p.numPages ≤ maxProcessPages)
    (hturn : ∀ piece, c.turn p.layout ≠ .piece piece) : c.done = c₀.reach p.layout := by
  refine Nat.le_antisymm h.bound (Nat.not_lt.mp fun hlt => ?_)
  -- no byte has to be left out because its address is too large: the pages end there at the latest
  replace hmax : p.layout.numPages ≤ maxProcessPages := hmax
  obtain ⟨a, ha⟩ : ∃ a, c.start.add? c.done = some a := by
    refine VirtualAddress.exists_add? hmax ?_
    rw [h.start]
    rw [reach] at hlt
    omega
  have htoNat := VirtualAddress.toNat_of_add? ha
  have hinside : p.layout.contains a.page = true := by
    refine decide_eq_true ?_
    change a.page.val.toNat < _
    rw [VirtualAddress.toNat_page, Nat.div_lt_iff_lt_mul (by decide), htoNat, h.start]
    simp only [reach, pageSize] at *
    omega
  have hleft : c.done < c.length := by
    rw [h.length]
    exact Nat.lt_of_lt_of_le hlt (Nat.min_le_left ..)
  exact hturn _ (turn_eq_piece.mpr ⟨hleft, a, ha, hinside, rfl⟩)

/-- A read goes on with the bytes of its piece, if what the process finds on the page is what it
found there in `m₀`. -/
theorem Reaches.afterRead (hturn : c.turn p.layout = .piece piece) (hkind : c₀.kind = .read)
    {old : Page}
    (hold : ∀ b, seen b → b.page = piece.page → m₀.byte? p b = old.bytes[b.offset.toNat]?) :
    Reaches c₀ (c.afterRead piece (old.bytes.slice piece.offset.toNat piece.amount)) p m₀ seen := by
  have hfits := piece_fits hturn
  obtain ⟨a, ha, hpage, hoffset, -, -, hbound, haligned⟩ := h.next hturn
  have htoNat := VirtualAddress.toNat_of_add? ha
  have hlength : (old.bytes.slice piece.offset.toNat piece.amount).length = piece.amount :=
    Bytes.length_slice (old.length_bytes.symm ▸ hfits)
  obtain ⟨hcount, hfound⟩ := h.found hkind
  refine ⟨h.kind, h.start, h.length, hbound, Or.inr haligned, fun _ => ⟨?_, fun b hb hle hlt => ?_⟩,
    fun hwrite => ?_⟩
  · rw [bytes_afterRead, List.length_append, hcount, hlength]
    rfl
  · replace hlt : b.toNat < c₀.start.toNat + (c.done + piece.amount) := hlt
    rw [bytes_afterRead]
    by_cases hbefore : b.toNat < c₀.start.toNat + c.done
    · rw [List.getElem?_append_left (by omega)]
      exact hfound b hb hle hbefore
    · rw [hoffset] at hfits
      obtain ⟨hbpage, hboffset, -⟩ := (VirtualAddress.mem_piece_iff (b := b) hfits).mpr (by omega)
      have hd : b.toNat - c₀.start.toNat - c.bytes.length = b.offset.toNat - a.offset.toNat := by
        rw [VirtualAddress.toNat_offset, VirtualAddress.toNat_offset] at *
        have hsame : b.page.val.toNat = a.page.val.toNat := by rw [hbpage]
        rw [VirtualAddress.toNat_page, VirtualAddress.toNat_page] at hsame
        simp only [pageSize] at *
        omega
      rw [List.getElem?_append_right (by omega), hold b hb (hbpage.trans hpage.symm), hd,
        Bytes.getElem?_slice (by omega), hoffset, Nat.add_sub_cancel' hboffset]
  · rw [hkind] at hwrite
    contradiction

/-- A write goes on when the bytes of its piece are written. -/
theorem Reaches.afterWrite (hturn : c.turn p.layout = .piece piece) (hkind : c₀.kind = .write) :
    Reaches c₀ (c.afterWrite piece) p m₀ seen := by
  obtain ⟨-, -, -, -, -, -, hbound, haligned⟩ := h.next hturn
  obtain ⟨hwhole, hpending⟩ := h.pending hkind
  refine ⟨h.kind, h.start, h.length, hbound, Or.inr haligned, fun hread => ?_, fun _ => ⟨hwhole, ?_⟩⟩
  · rw [hkind] at hread
    contradiction
  · change c.pending.drop piece.amount = c₀.pending.drop (c.done + piece.amount)
    rw [hpending, List.drop_drop]

/-- The bytes that a write puts into its piece. -/
theorem Reaches.getElem?_outgoing (hkind : c₀.kind = .write) {k : Nat} (hk : k < piece.amount) :
    (c.outgoing piece)[k]? = c₀.pending[c.done + k]? := by
  rw [outgoing, List.getElem?_take_of_lt hk, (h.pending hkind).2, List.getElem?_drop]

/-- A write fills its piece. -/
theorem Reaches.length_outgoing (hturn : c.turn p.layout = .piece piece) (hkind : c₀.kind = .write) :
    (c.outgoing piece).length = piece.amount := by
  obtain ⟨hwhole, hpending⟩ := h.pending hkind
  obtain ⟨-, -, -, -, -, -, hbound, -⟩ := h.next hturn
  have hlength : c.done + piece.amount ≤ c₀.length := Nat.le_trans hbound (Nat.min_le_left ..)
  rw [outgoing, hpending, List.length_take, List.length_drop, hwhole]
  omega

end Reaches

end Copy

/-! ## Memory -/

namespace Machine

variable {m₀ m m' : Machine} {l : Ledger} {p : UserProcess} {c₀ c : Copy} {piece : CopyPiece}
  {f : FrameNumber} {spared : UserProcess → Prop} {seen : VirtualAddress → Prop} {n : Nat}

/-- In `m` the spared processes find what they found in `m₀`, at the addresses that are `seen`, but the
first `n` bytes of what `c₀` writes to `p` are in place. -/
structure Overlaid (m₀ m : Machine) (spared : UserProcess → Prop) (seen : VirtualAddress → Prop)
    (p : UserProcess) (c₀ : Copy) (n : Nat) : Prop where
  registered : ∀ q, spared q → m₀.Registered q → m.Registered q
  bytes : ∀ q, spared q → m₀.Registered q → ∀ b, seen b → m.byte? q b =
    if c₀.kind = .write ∧ q.pid = p.pid ∧ c₀.start.toNat ≤ b.toNat ∧ b.toNat < c₀.start.toNat + n
    then c₀.pending[b.toNat - c₀.start.toNat]? else m₀.byte? q b

/-- Bytes come from the content of their page. -/
theorem byte?_of_content? {b : VirtualAddress} (h : m'.content? p b.page = m.content? p b.page) :
    m'.byte? p b = m.byte? p b := by
  rw [byte?, h, byte?]

/-- Nothing has been written yet. -/
theorem Overlaid.refl (m₀ : Machine) : m₀.Overlaid m₀ spared seen p c₀ 0 := by
  refine ⟨fun q _ hq => hq, fun q _ _ b _ => ?_⟩
  rw [if_neg (by omega)]

/-- What leaves the spared processes alone changes nothing. -/
theorem Overlaid.kept (h : m₀.Overlaid m spared seen p c₀ n)
    (hkept : ∀ q, spared q → m.Registered q →
      m'.Registered q ∧ ∀ b, seen b → m'.byte? q b = m.byte? q b) :
    m₀.Overlaid m' spared seen p c₀ n := by
  refine ⟨fun q hq hq₀ => (hkept q hq (h.registered q hq hq₀)).1, fun q hq hq₀ b hb => ?_⟩
  rw [← h.bytes q hq hq₀ b hb, (hkept q hq (h.registered q hq hq₀)).2 b hb]

/-- As long as a copy reads, the spared processes find what they found. -/
theorem Overlaid.byte?_of_read (h : m₀.Overlaid m spared seen p c₀ n) (hkind : c₀.kind = .read)
    {q : UserProcess} (hq : spared q) (hq₀ : m₀.Registered q) {b : VirtualAddress} (hb : seen b) :
    m.byte? q b = m₀.byte? q b := by
  rw [h.bytes q hq hq₀ b hb, hkind, if_neg (fun hwrite => nomatch hwrite.1)]

/-- **A piece is flat**: a write puts its bytes where they belong, and every other byte of every
process is as before. -/
theorem Copied.byte?_eq (hcopied : m.Copied m' l p c piece f) (hp : m.Registered p)
    {a : VirtualAddress} (hpage : piece.page = a.page) (hoffset : piece.offset = a.offset)
    (hfits : piece.offset.toNat + piece.amount ≤ pageSize)
    (hfull : c.kind = .write → (c.outgoing piece).length = piece.amount) {q : UserProcess}
    (hq : m.Registered q) (b : VirtualAddress) : m'.byte? q b =
      if c.kind = .write ∧ q.pid = p.pid ∧ a.toNat ≤ b.toNat ∧ b.toNat < a.toNat + piece.amount
      then (c.outgoing piece)[b.toNat - a.toNat]? else m.byte? q b := by
  rw [hoffset] at hfits
  have hmem := VirtualAddress.mem_piece_iff (b := b) hfits
  by_cases htarget : c.kind = .write ∧ (q.pid, b.page) = (p.pid, piece.page)
  · obtain ⟨hwrite, hsame⟩ := htarget
    rw [Prod.mk.injEq] at hsame
    obtain ⟨hpid, hbpage⟩ := hsame
    obtain rfl : p = q := by
      have hp' : m.process? p.pid = some p := hp
      rw [← hpid, show m.process? q.pid = some q from hq, Option.some.injEq] at hp'
      exact hp'.symm
    obtain ⟨old, new, hold, hnew, hcontent⟩ := hcopied.written hwrite hp
    rw [byte?, byte?, hbpage, hcontent, hold, Option.bind_some, Option.bind_some,
      Page.getElem?_write? hnew, hfull hwrite, hoffset]
    have hrange : a.offset.toNat ≤ b.offset.toNat ∧
        b.offset.toNat < a.offset.toNat + piece.amount ↔
        a.toNat ≤ b.toNat ∧ b.toNat < a.toNat + piece.amount := by
      rw [← hmem]
      exact (and_iff_right (hbpage.trans hpage)).symm
    by_cases hin : a.toNat ≤ b.toNat ∧ b.toNat < a.toNat + piece.amount
    · have hoff : b.offset.toNat - a.offset.toNat = b.toNat - a.toNat := by
        have hdiv : b.page.val.toNat = a.page.val.toNat := by rw [hbpage, hpage]
        rw [VirtualAddress.toNat_page, VirtualAddress.toNat_page] at hdiv
        rw [VirtualAddress.toNat_offset, VirtualAddress.toNat_offset]
        simp only [pageSize] at *
        omega
      rw [if_pos (hrange.mpr hin), if_pos ⟨hwrite, rfl, hin⟩, hoff]
    · rw [if_neg (mt hrange.mp hin), if_neg (fun h => hin h.2.2)]
  · have hcontent := hcopied.content q b.page hq fun hw heq => htarget ⟨hw, heq⟩
    rw [byte?, byte?, hcontent, if_neg]
    rintro ⟨hw, hpid, hin⟩
    exact htarget ⟨hw, by rw [hpid, hpage, (hmem.mpr hin).1]⟩

/-- One more piece of the copy is in place. -/
theorem Overlaid.next (h : m₀.Overlaid m spared seen p c₀ c.done) (hreach : c₀.Reaches c p m₀ seen)
    (hturn : c.turn p.layout = .piece piece) (hcopied : m.Copied m' l p c piece f)
    (hp : m.Registered p) : m₀.Overlaid m' spared seen p c₀ (c.done + piece.amount) := by
  obtain ⟨a, ha, hpage, hoffset, -, -, -, -⟩ := hreach.next hturn
  have htoNat := VirtualAddress.toNat_of_add? ha
  refine ⟨fun q hq hq₀ => (hcopied.registry q.pid).trans (h.registered q hq hq₀),
    fun q hq hq₀ b hb => ?_⟩
  rw [hcopied.byte?_eq hp hpage hoffset (Copy.piece_fits hturn)
    (fun hw => hreach.length_outgoing hturn (hreach.kind ▸ hw)) (h.registered q hq hq₀),
    h.bytes q hq hq₀ b hb, hreach.kind]
  refine ite_stretch_append (Or.inr htoNat) (fun _ _ _ => rfl) fun hkind hle hlt => ?_
  have hindex : c.done + (b.toNat - a.toNat) = b.toNat - c₀.start.toNat := by omega
  rw [hreach.getElem?_outgoing hkind (by omega), hindex]

end Machine

/-! ## Calls -/

/-- What a call hands over that has made its copy. -/
def Purpose.answer : Purpose → Copy → Answer
  | .text, copy => .text (terminatedText? copy.bytes)
  | _, copy => .copied copy

namespace Call

variable {m₀ m m' : Machine} {l : Ledger} {p : UserProcess} {c₀ copy : Copy} {c c' : Call}
  {pr : Progress} {purpose : Purpose} {spared : UserProcess → Prop} {seen : VirtualAddress → Prop}

/-- The call makes the copy and does nothing else. It does not create a process. -/
structure Copies (c : Call) (purpose : Purpose) (p : UserProcess) (copy : Copy) : Prop where
  ne_spawn : purpose ≠ .spawn
  process : c.process = p
  purpose : c.purpose = purpose
  tasks : c.tasks = [.copy copy]
  stage : ∀ e, c.stage ≠ .undoing e

/-- What a step of a call can do that makes a copy. -/
inductive CopyStep (m : Machine) (l : Ledger) (c : Call) (purpose : Purpose) (p : UserProcess)
    (copy : Copy) : Progress × Machine → Prop
  /-- Nothing is copied. -/
  | waits {c' : Call} {m' : Machine} (writing : c.writing? = none) (copies : c'.Copies purpose p copy) :
    CopyStep m l c purpose p copy (.ongoing c', m')
  /-- A piece is copied. -/
  | copied {c' : Call} {copy' : Copy} {piece : CopyPiece} {f : FrameNumber} {old : Page}
    {m' : Machine} (turn : copy.turn p.layout = .piece piece)
    (content : m.content? p piece.page = some old)
    (next : copy.kind = .read ∧
        copy' = copy.afterRead piece (old.bytes.slice piece.offset.toNat piece.amount) ∨
      copy.kind = .write ∧ copy' = copy.afterWrite piece)
    (copied : m.Copied m' l p copy piece f) (copies : c'.Copies purpose p copy') :
    CopyStep m l c purpose p copy (.ongoing c', m')
  /-- There is nothing left to copy. -/
  | returned {m' : Machine} (writing : c.writing? = none)
    (turn : ∀ piece, copy.turn p.layout ≠ .piece piece) :
    CopyStep m l c purpose p copy (.finished (.returned (purpose.answer copy)), m')
  /-- The page of the next piece could not be had. -/
  | failed {m₁ m' : Machine} {piece : CopyPiece} {e : VmError} (writing : c.writing? = none)
    (turn : copy.turn p.layout = .piece piece) (ready : c.Ready m m₁)
    (run : (Action.resolve p piece.page copy.kind).run m₁ = .error (.error e) m') :
    CopyStep m l c purpose p copy (.finished (.failed e (some copy)), m')
  | violated {v : Violation} {m' : Machine} :
    CopyStep m l c purpose p copy (.finished (.violated v), m')

theorem Copies.with_stage (h : c.Copies purpose p copy) {stage : Stage}
    (hstage : ∀ e, stage ≠ .undoing e) : ({ c with stage } : Call).Copies purpose p copy :=
  ⟨h.ne_spawn, h.process, h.purpose, h.tasks, hstage⟩

section Step

variable (hc : c.Copies purpose p copy)
include hc

theorem Copies.wanted? {piece : CopyPiece} (hturn : copy.turn p.layout = .piece piece) :
    c.wanted? = some (piece.page, copy.kind) := by
  rw [← hc.process] at hturn
  simp only [Call.wanted?, hc.tasks, hturn]

/-- An attempt to get at the page of the next piece. -/
theorem Copies.afterSeek {m₁ : Machine} {piece : CopyPiece}
    (hturn : copy.turn p.layout = .piece piece) (hready : c.Ready m m₁) :
    CopyStep m l c purpose p copy
      (c.afterSeek ((Action.resolve c.process piece.page copy.kind).run m₁)) := by
  have hwriting := writing?_of_frame? hready.frame?
  rw [hc.process]
  cases hrun : (Action.resolve p piece.page copy.kind).run m₁ with
  | ok grant m₂ =>
    cases grant with
    | pinned f => exact .waits hwriting (hc.with_stage fun _ heq => by cases heq)
    | queued t => exact .waits hwriting (hc.with_stage fun _ heq => by cases heq)
  | error stop m₂ =>
    cases stop with
    | violation v => exact .violated
    | error e =>
      have hcopy : c.copy? = some copy := by rw [copy?, hc.tasks]
      have hspawn : c.purpose ≠ .spawn := hc.purpose ▸ hc.ne_spawn
      rw [Call.afterSeek, afterFailure, if_neg hspawn, hcopy]
      exact .failed hwriting hturn hready hrun

/-- The copy has a piece to go if the call wants a page. -/
theorem Copies.exists_piece {page : PageNumber} {kind : AccessKind}
    (hwanted : c.wanted? = some (page, kind)) :
    ∃ piece, copy.turn p.layout = .piece piece ∧ piece.page = page := by
  simp only [Call.wanted?, hc.tasks, hc.process] at hwanted
  split at hwanted
  · next piece hturn =>
    cases hwanted
    exact ⟨piece, hturn, rfl⟩
  · contradiction

/-- A call whose copy has no piece to go hands it over. -/
theorem Copies.step_of_seeking (hstage : c.stage = .seeking)
    (hturn : ∀ piece, copy.turn p.layout ≠ .piece piece) :
    ∃ m', c.step m = (.finished (.returned (purpose.answer copy)), m') := by
  have hspawn : ¬ (c.purpose = .spawn ∧ copy.done < copy.length) :=
    fun h => hc.ne_spawn (hc.purpose.symm.trans h.1)
  have hend : c.endCopy copy [] = pure (.finished (.returned (purpose.answer copy))) := by
    rw [endCopy, if_neg hspawn]
    simp only [endTask, conclude, hc.purpose]
    cases purpose with
    | plain => rfl
    | text => rfl
    | spawn => exact absurd rfl hc.ne_spawn
  rw [← hc.process] at hturn
  unfold step
  rw [proceed, hstage]
  simp only [begin, hc.tasks]
  cases hcopy : copy.turn c.process.layout with
  | piece piece => exact absurd hcopy (hturn piece)
  | complete => exact ⟨m, by simp only [hend, EStateM.run_pure]⟩
  | outside a =>
    exact ⟨_, by simp only [hend, EStateM.run_bind, Action.run_note, EStateM.run_pure]; rfl⟩

/-- A call that holds the page of its next piece copies the piece. -/
theorem Copies.step_of_holding (h : m.Sound l) (hp : c.process ∈ l.processes)
    (hreg : m.Registered p) (hv : c.Valid) (hr : c.Recorded m)
    (hf : ∀ f, c.frame? = some f → f ∈ l.pinned) {f : FrameNumber} (hstage : c.stage = .holding f) :
    CopyStep m l c purpose p copy (c.step m) := by
  have hframe : c.frame? = some f := by rw [frame?, hstage]
  obtain ⟨page, kind, hwanted⟩ := hv.holding f hstage
  obtain ⟨i, hi, howner, hpage⟩ := hr f hframe
  replace hpage := hpage page kind hstage hwanted
  obtain ⟨piece, hturn, rfl⟩ := hc.exists_piece hwanted
  have hfits := Copy.piece_fits hturn
  obtain ⟨hspawn, rfl, hpurpose, htasks, -⟩ := hc
  obtain ⟨copy', m', hrun, hcopied⟩ :=
    Action.transfer_spec h hp (hf f hframe) hi howner hpage hfits (c := copy)
  obtain ⟨old, hold, hnext⟩ :=
    Action.exists_of_run_transfer h (hf f hframe) hi howner hpage hfits hreg hrun
  rw [step_of_transfer hstage htasks hturn hrun]
  exact .copied hturn hold hnext hcopied ⟨hspawn, rfl, hpurpose, rfl, fun _ heq => by cases heq⟩

/-- **Every step of a call that makes a copy is one of those listed.** -/
theorem Copies.copyStep (h : m.Sound l) (hp : c.process ∈ l.processes) (hreg : m.Registered p)
    (hv : c.Valid) (hr : c.Recorded m) (hf : ∀ f, c.frame? = some f → f ∈ l.pinned) :
    CopyStep m l c purpose p copy (c.step m) := by
  cases hstage : c.stage with
  | seeking =>
    by_cases hpiece : ∃ piece, copy.turn p.layout = .piece piece
    · obtain ⟨piece, hturn⟩ := hpiece
      rw [Call.step_of_seeking (hc.wanted? hturn) hstage]
      exact hc.afterSeek hturn (.seeking hstage)
    · replace hpiece : ∀ piece, copy.turn p.layout ≠ .piece piece := fun piece hturn =>
        hpiece ⟨piece, hturn⟩
      obtain ⟨m', hstep⟩ := hc.step_of_seeking (m := m) hstage hpiece
      rw [hstep]
      exact .returned (writing?_of_frame? (frame?_of_seeking hstage)) hpiece
  | waiting t =>
    cases hpark : m.waiters.park? t with
    | none =>
      rw [step_of_asleep hstage hpark]
      exact .waits (writing?_of_frame? (by rw [frame?, hstage])) hc
    | some room =>
      obtain ⟨page, kind, hwanted⟩ := hv.waiting t hstage
      obtain ⟨piece, hturn, -⟩ := hc.exists_piece hwanted
      rw [step_of_woken (hc.wanted? hturn) hstage hpark]
      exact hc.afterSeek hturn (.woken hstage hpark)
  | holding f => exact hc.step_of_holding h hp hreg hv hr hf hstage
  | leaving f =>
    obtain ⟨i, hi, hpins, -⟩ := h.info_of_pinned (hf f (by rw [frame?, hstage]))
    rw [step_of_leaving hstage hi hpins]
    exact .waits (by rw [writing?, hstage]) (hc.with_stage fun _ heq => by cases heq)
  | undoing e => exact absurd hstage (hc.stage e)

/-- A step that writes nothing leaves every page of every process as it is. -/
theorem Copies.keeps (hs : Stepped m l c (pr, m')) (hr : c.Recorded m)
    (hwriting : c.writing? = none) {q : UserProcess} (hq : m.Registered q) :
    m'.Registered q ∧ ∀ page, m'.content? q page = m.content? q page := by
  have htorn : c.torn? = none := by
    unfold torn?
    split
    · next e hstage => exact absurd hstage (hc.stage e)
    · rfl
  exact hs.spares_all hr htorn hwriting hq

end Step

/-- The call makes the copy `c₀`, which began in `m₀`. So far the copy is flat. -/
def Carries (c₀ : Copy) (purpose : Purpose) (p : UserProcess) (spared : UserProcess → Prop)
    (seen : VirtualAddress → Prop) (m₀ m : Machine) (c : Call) : Prop :=
  ∃ copy, c.Copies purpose p copy ∧ c₀.Reaches copy p m₀ seen ∧
    m₀.Overlaid m spared seen p c₀ copy.done

section Carries

variable (hspared : spared p) (hp₀ : m₀.Registered p) (h : m.Sound l)
  (hp : c.process ∈ l.processes) (hv : c.Valid) (hr : c.Recorded m)
  (hf : ∀ f, c.frame? = some f → f ∈ l.pinned) (hc : c.Carries c₀ purpose p spared seen m₀ m)
include hspared hp₀ h hp hv hr hf hc

/-- A step that writes nothing keeps what is copied so far. -/
theorem Carries.exists_copyStep : ∃ copy, CopyStep m l c purpose p copy (c.step m) ∧
    c₀.Reaches copy p m₀ seen ∧ m₀.Overlaid m spared seen p c₀ copy.done ∧
    (c.writing? = none → m₀.Overlaid (c.step m).2 spared seen p c₀ copy.done) := by
  obtain ⟨copy, hcopies, hreach, hover⟩ := hc
  have hreg := hover.registered p hspared hp₀
  have hs := step_spec h hp hv hr hf
  refine ⟨copy, hcopies.copyStep h hp hreg hv hr hf, hreach, hover, fun hwriting =>
    hover.kept fun q _ hq => ?_⟩
  obtain ⟨hq', hcontent⟩ := hcopies.keeps hs hr hwriting hq
  exact ⟨hq', fun b _ => byte?_of_content? (hcontent b.page)⟩

/-- **A step keeps the copy flat.** -/
theorem Carries.ongoing (hstep : (c.step m).1 = .ongoing c') :
    c'.Carries c₀ purpose p spared seen m₀ (c.step m).2 := by
  obtain ⟨copy, hcopy, hreach, hover, hkept⟩ := hc.exists_copyStep hspared hp₀ h hp hv hr hf
  have hreg := hover.registered p hspared hp₀
  generalize c.step m = x at hstep hcopy hkept
  cases hcopy with
  | waits writing copies =>
    cases hstep
    exact ⟨copy, copies, hreach, hkept writing⟩
  | @copied _ copy' piece f old m' turn content next copied copies =>
    cases hstep
    obtain ⟨hkind, rfl⟩ | ⟨hkind, rfl⟩ := next
    · refine ⟨_, copies, hreach.afterRead turn (hreach.kind ▸ hkind) fun b hb hpage => ?_,
        hover.next hreach turn copied hreg⟩
      rw [← hover.byte?_of_read (hreach.kind ▸ hkind) hspared hp₀ hb, byte?, hpage, content,
        Option.bind_some]
    · exact ⟨_, copies, hreach.afterWrite turn (hreach.kind ▸ hkind),
        hover.next hreach turn copied hreg⟩
  | returned writing turn => cases hstep
  | failed writing turn ready run => cases hstep
  | violated => cases hstep

/-- A call that returns hands over the copy, and everything in the address space is copied. -/
theorem Carries.returned (hmax : p.numPages ≤ maxProcessPages) {a : Answer}
    (hstep : (c.step m).1 = .finished (.returned a)) :
    ∃ copy, a = purpose.answer copy ∧ copy.done = c₀.reach p.layout ∧ c₀.Reaches copy p m₀ seen ∧
      m₀.Overlaid (c.step m).2 spared seen p c₀ copy.done := by
  obtain ⟨copy, hcopy, hreach, -, hkept⟩ := hc.exists_copyStep hspared hp₀ h hp hv hr hf
  generalize c.step m = x at hstep hcopy hkept
  cases hcopy with
  | waits writing copies => cases hstep
  | copied turn content next copied copies => cases hstep
  | returned writing turn =>
    cases hstep
    exact ⟨copy, rfl, hreach.done_eq hmax turn, hreach, hkept writing⟩
  | failed writing turn ready run => cases hstep
  | violated => cases hstep

/-- A call that fails has copied what lies in front of the page that it could not have. -/
theorem Carries.failed {e : VmError} {copied : Option Copy}
    (hstep : (c.step m).1 = .finished (.failed e copied)) :
    ∃ copy piece m₁, copied = some copy ∧ copy.turn p.layout = .piece piece ∧ c.Ready m m₁ ∧
      (Action.resolve p piece.page copy.kind).run m₁ = .error (.error e) (c.step m).2 ∧
      c₀.Reaches copy p m₀ seen ∧ m₀.Overlaid (c.step m).2 spared seen p c₀ copy.done := by
  obtain ⟨copy, hcopy, hreach, -, hkept⟩ := hc.exists_copyStep hspared hp₀ h hp hv hr hf
  generalize c.step m = x at hstep hcopy hkept
  cases hcopy with
  | waits writing copies => cases hstep
  | copied turn content next copied copies => cases hstep
  | returned writing turn => cases hstep
  | failed writing turn ready run =>
    cases hstep
    exact ⟨copy, _, _, rfl, turn, ready, run, hreach, hkept writing⟩
  | violated => cases hstep

end Carries

end Call

namespace System

variable {allowed : System → Move → Prop} {spared : UserProcess → Prop}
  {seen : VirtualAddress → Prop} {s s' : System} {loose : List FrameNumber}
  {broken : List ProcessId} {p : UserProcess} {k : Nat} {r : Request} {o : Outcome} {c₀ : Copy}
  {purpose : Purpose}

/-- There is room for the moves that are `allowed`, the spared processes live on, and what they find at
the addresses that are `seen` stays as it is. -/
structure Preserves (allowed : System → Move → Prop) (spared : UserProcess → Prop)
    (seen : VirtualAddress → Prop) : Prop where
  room : ∀ s mv, allowed s mv → s.HasRoom mv
  kept : ∀ (s : System) (mv : Move) loose broken, s.Sound loose broken → allowed s mv →
    ∀ q, spared q → s.machine.Registered q → (s.after mv).machine.Registered q ∧
      ∀ b, seen b → (s.after mv).machine.byte? q b = s.machine.byte? q b

/-- Moves that spare a process spare all that it finds. -/
theorem preserves_sparing (spared : UserProcess → Prop) (seen : VirtualAddress → Prop) :
    Preserves (Sparing spared) spared seen := by
  refine ⟨fun s mv h => h.1, fun s mv loose broken hs h q hq hqm => ?_⟩
  obtain ⟨hreg, hcontent⟩ := (h.2 q hq).keeps hs h.1 hqm
  exact ⟨hreg, fun b _ => byte?_of_content? (hcontent b.page)⟩

/-- **The copy is flat up to the last step of its call**, whatever is allowed to happen in between. -/
theorem ServesAmid.carries (h : ServesAmid allowed s k r o s') (hall : Preserves allowed spared seen)
    (hs : s.Sound loose broken) (hk : s.processes[k]? = some p) (hp : s.machine.Registered p)
    (hspared : spared p) (hcopies : (r.toCall p).Copies purpose p c₀)
    (hreach : c₀.Reaches c₀ p s.machine seen) (hdone : c₀.done = 0) :
    ∃ (t : System) (j : Nat) (loose : List FrameNumber) (broken : List ProcessId) (c : Call),
      t.Sound loose broken ∧ t.calls[j]? = some c ∧
      c.Carries c₀ purpose p spared seen s.machine t.machine ∧
      (c.step t.machine).1 = .finished o ∧ s' = t.after (.step j) := by
  obtain ⟨loose₁, hs₁⟩ := (moved hs (show s.HasRoom (.request k r) from trivial)).sound
  have hafter := after_request hk r
  rw [ServesAmid, hafter] at h
  rw [hafter] at hs₁
  refine h.follow (P := Call.Carries c₀ purpose p spared seen s.machine) hall.room hs₁
    List.getElem?_concat_length ⟨c₀, hcopies, hreach, hdone ▸ .refl s.machine⟩ ?_ ?_
  · rintro t mv loose' broken' c ht hmv ⟨copy, hcopies, hreach, hover⟩
    exact ⟨copy, hcopies, hreach, hover.kept (hall.kept t mv loose' broken' ht hmv)⟩
  · intro t j loose' broken' c c' ht hc hcarries hstep
    obtain ⟨hmem, hv, hr⟩ := ht.calls c (List.mem_of_getElem? hc)
    exact hcarries.ongoing hspared hp ht.machine hmem hv hr
      (fun f hf => mem_pins_of_call (List.mem_of_getElem? hc) hf) hstep

/-- A call that returns hands over its copy, and everything in the address space is copied. -/
theorem ServesAmid.returned {a : Answer} (h : ServesAmid allowed s k r (.returned a) s')
    (hall : Preserves allowed spared seen) (hs : s.Sound loose broken)
    (hk : s.processes[k]? = some p) (hp : s.machine.Registered p)
    (hmax : p.numPages ≤ maxProcessPages) (hspared : spared p)
    (hcopies : (r.toCall p).Copies purpose p c₀) (hreach : c₀.Reaches c₀ p s.machine seen)
    (hdone : c₀.done = 0) : ∃ copy, a = purpose.answer copy ∧ copy.done = c₀.reach p.layout ∧
      c₀.Reaches copy p s.machine seen ∧
      s.machine.Overlaid s'.machine spared seen p c₀ copy.done := by
  obtain ⟨t, j, loose', broken', c, ht, hc, hcarries, hstep, rfl⟩ :=
    h.carries hall hs hk hp hspared hcopies hreach hdone
  obtain ⟨hmem, hv, hr⟩ := ht.calls c (List.mem_of_getElem? hc)
  rw [machine_after_step hc]
  exact hcarries.returned hspared hp ht.machine hmem hv hr
    (fun f hf => mem_pins_of_call (List.mem_of_getElem? hc) hf) hmax hstep

end System

end DemandPaging
