import DemandPaging.Proofs.Attributes

/-!
# Read-only pages

A write to a read-only page is refused before anything else happens, so no call that writes ever gets
as far as to wait for such a page or to hold it (`Call.Permitted`). Hence read-only pages are never
dirty and never saved (`System.Untouched`), what a process finds in them is the executable, and that
is what its calls read (`System.Truthful`).
-/

namespace DemandPaging

open Machine

/-- Page `k` of section `i` of the executable lies at `page`, and the process may not write to it. -/
def UserProcess.Protects (p : UserProcess) (page : PageNumber) (i k : Nat) : Prop :=
  p.layout.source? page = some (.fromSection i k) ∧ p.image.readOnly i = true

/-- The page was not written to since it was brought in, and no copy of it was saved. -/
def Machine.Unwritten (m : Machine) (p : UserProcess) (page : PageNumber) : Prop :=
  ¬ m.Dirty p page ∧ m.kernel.swap.copy? (p.pid, page) = none

/-- What a read found on read-only pages are the bytes of the executable. -/
structure Copy.Faithful (c : Copy) (p : UserProcess) : Prop where
  length : c.bytes.length = c.done
  bytes : ∀ n < c.done, ∀ a i k, c.start.add? n = some a → p.Protects a.page i k →
    ∃ content, p.image.page i k = .ok content ∧ c.bytes[n]? = content.bytes[a.offset.toNat]?

/-! ## Attempts -/

namespace Action

variable {m m' : Machine} {p : UserProcess} {page : PageNumber} {grant : Grant}

/-- A write to a read-only page is refused. -/
theorem run_resolve_of_readOnly (hp : m.Registered p) (hro : m.readOnly? p page = some true) :
    (resolve p page .write).run m = .error (.error (.readOnlyViolation p.pid page)) m := by
  have hreg : m.kernel.registry.contains p.pid = true := by
    rw [Registry.contains, show m.kernel.registry.find? p.pid = some p from hp]
    rfl
  obtain ⟨e, he, hbit⟩ := Option.map_eq_some_iff.mp hro
  simp only [resolve, permittedEntry, EStateM.run_bind, EStateM.run_get, hreg, if_true, he,
    AccessKind.isWrite, hbit, Bool.and_self, run_fail]

/-- A page that was granted to a write is not read-only. -/
theorem readOnly?_of_resolve (h : (resolve p page .write).run m = .ok grant m') :
    m.readOnly? p page = some false := by
  simp only [resolve, permittedEntry, EStateM.run_bind, EStateM.run_get] at h
  cases hreg : m.kernel.registry.contains p.pid with
  | false =>
    simp only [hreg, Bool.false_eq_true, if_false, run_fail] at h
    contradiction
  | true =>
    cases he : m.entryOf? p page with
    | none =>
      simp only [hreg, if_true, he, run_fail] at h
      contradiction
    | some e =>
      cases hbit : e.readOnly with
      | true =>
        simp only [hreg, if_true, he, AccessKind.isWrite, hbit, Bool.and_self, run_fail] at h
        contradiction
      | false => rw [readOnly?, he, Option.map_some, hbit]

end Action

/-! ## Calls that write -/

namespace Call

variable {m m' : Machine} {l : Ledger} {c c' : Call}

/-- The call was let through to the page it wants: it waits for it or holds it. -/
def Admitted (c : Call) : Prop :=
  (∃ t, c.stage = .waiting t) ∨ ∃ f, c.stage = .holding f

/-- A page that the call was let through to for a write is not read-only. -/
def Permitted (c : Call) (m : Machine) : Prop :=
  c.Admitted → ∀ page, c.wanted? = some (page, .write) → m.readOnly? c.process page = some false

theorem not_admitted_of_seeking (h : c.stage = .seeking) : ¬ c.Admitted := by
  rintro (⟨t, ht⟩ | ⟨f, hf⟩)
  · rw [h] at ht
    contradiction
  · rw [h] at hf
    contradiction

/-- A call that is about to write was let through. -/
theorem admitted_of_target? {pid : ProcessId} {page : PageNumber}
    (h : c.target? = some (pid, page)) :
    c.process.pid = pid ∧ c.Admitted ∧ c.wanted? = some (page, .write) := by
  obtain ⟨w, hw, heq⟩ := Option.map_eq_some_iff.mp h
  rw [Prod.mk.injEq] at heq
  unfold writing? at hw
  split at hw
  · next f copy rest hstage htasks =>
    split at hw
    · next piece hkind hturn =>
      cases hw
      refine ⟨heq.1, Or.inr ⟨f, hstage⟩, ?_⟩
      simp only [wanted?, htasks, hturn, hkind, ← heq.2]
    · contradiction
  · contradiction

/-- A call that asked for no page, or in vain, was not let through. -/
theorem not_admitted_of_quiet (h : c.Quiet (.ongoing c')) : ¬ c'.Admitted := by
  obtain ⟨-, hframe, hwaiting, -⟩ := h
  rintro (⟨t, ht⟩ | ⟨f, hf⟩)
  · exact hwaiting t ht
  · rw [frame?, hf] at hframe
    contradiction

/-- The permission is checked before a call can wait for a page or hold it. -/
theorem Stepped.permitted (hs : Stepped m l c (.ongoing c', m')) (hv : c.Valid)
    (h : c.Permitted m) : c'.Permitted m := by
  generalize hx : (Progress.ongoing c', m') = x at hs
  intro hadmitted page hwanted
  cases hs with
  | asleep stage parked =>
    cases hx
    exact h hadmitted page hwanted
  | quiet stage quiet alike waiters =>
    cases hx
    exact absurd hadmitted (not_admitted_of_quiet quiet)
  | @attempt m₁ page' kind r ready wanted resolution run =>
    rcases r with ⟨grant, m₂⟩ | ⟨stop, m₂⟩
    · have hc' : c'.wanted? = c.wanted? ∧ c'.process = c.process := by
        cases grant <;>
        · cases hx
          exact ⟨rfl, rfl⟩
      rw [hc'.1, wanted, Option.some.injEq, Prod.mk.injEq] at hwanted
      obtain ⟨rfl, rfl⟩ := hwanted
      have hro := Action.readOnly?_of_resolve run
      rw [readOnly?, ready.alike.entryOf?] at hro
      rw [hc'.2]
      exact hro
    · have hquiet := quiet_afterFailure hv stop
      rw [← (Prod.mk.inj hx).1] at hquiet
      exact absurd hadmitted (not_admitted_of_quiet hquiet)
  | unpinned frame info pins writing valid continues =>
    cases hx
    rcases hadmitted with ⟨t, ht⟩ | ⟨f, hf⟩ <;> contradiction
  | kept stage wanted writing => cases hx
  | copied stage tasks turn copied valid run =>
    cases hx
    rcases hadmitted with ⟨t, ht⟩ | ⟨f, hf⟩ <;> contradiction
  | @undone e r stage departure => cases departure <;> cases hx

end Call

/-! ## What a process finds in a read-only page -/

namespace Machine

variable {m m' : Machine} {l : Ledger} {p : UserProcess} {page : PageNumber}

/-- A page that was not written is what it was at the start. -/
theorem Sound.content?_of_unwritten (h : m.Sound l) (hp : m.Registered p) {e : PageEntry}
    (he : m.entryOf? p page = some e) (hu : m.Unwritten p page) :
    m.content? p page = (p.initialContent page).toOption := by
  have hstored : m.storedContent? p page = (p.initialContent page).toOption := by
    rw [storedContent?, hu.2, Option.none_or]
  have hclean : e.dirty = false := by
    by_contra hdirty
    exact hu.1 ⟨e, he, Bool.not_eq_false _ ▸ hdirty⟩
  cases hf : e.frame? with
  | none => rw [content?_of_absent he hf, hstored]
  | some f => rw [content?_of_resident he hf, ← h.clean p page e f hp he hf hclean, hstored]

end Machine

/-- A page of a section begins as the executable has it. -/
theorem UserProcess.Protects.initialContent {p : UserProcess} {page : PageNumber} {i k : Nat}
    (h : p.Protects page i k) :
    (p.initialContent page).toOption = (p.image.page i k).toOption := by
  simp only [UserProcess.initialContent, h.1]
  cases p.image.page i k <;> rfl

/-! ## Copies -/

namespace Copy

variable {c c' : Copy} {p : UserProcess} {piece : CopyPiece}

/-- A read that has not begun is faithful. -/
theorem faithful_ofRead (p : UserProcess) (start : VirtualAddress) (length : Nat) :
    (ofRead start length).Faithful p :=
  ⟨rfl, fun n hn => absurd hn (Nat.not_lt_zero n)⟩

/-- A read stays faithful if it finds the page of the executable on every read-only page. -/
theorem Faithful.afterRead (h : c.Faithful p) {l : Layout} (hturn : c.turn l = .piece piece)
    {old : Page} (hold : ∀ i k, p.Protects piece.page i k → p.image.page i k = .ok old) :
    (c.afterRead piece (old.bytes.slice piece.offset.toNat piece.amount)).Faithful p := by
  have hfits := piece_fits hturn
  have hlength : (old.bytes.slice piece.offset.toNat piece.amount).length = piece.amount :=
    Bytes.length_slice (old.length_bytes.symm ▸ hfits)
  obtain ⟨b, hb, rfl⟩ := exists_of_turn hturn
  refine ⟨?_, fun n hn a i k ha hprot => ?_⟩
  · rw [bytes_afterRead, List.length_append, h.length, hlength]
    rfl
  · replace ha : c.start.add? n = some a := ha
    rw [bytes_afterRead]
    by_cases hlt : n < c.done
    · rw [List.getElem?_append_left (h.length.symm ▸ hlt)]
      exact h.bytes n hlt a i k ha hprot
    · -- the byte lies on the page of the piece, as far behind its first byte as `n` behind `c.done`
      obtain ⟨d, rfl⟩ := Nat.exists_eq_add_of_le (Nat.not_lt.mp hlt)
      have hd : d < (c.pieceAt b).amount := Nat.lt_of_add_lt_add_left hn
      have htoNat : a.toNat = b.toNat + d := by
        rw [VirtualAddress.toNat_of_add? ha, VirtualAddress.toNat_of_add? hb, Nat.add_assoc]
      obtain ⟨hpage, hoffset⟩ := VirtualAddress.page_offset_of_toNat htoNat
        (Nat.lt_of_lt_of_le (Nat.add_lt_add_left hd _) hfits)
      have hprot' : p.Protects b.page i k := hpage ▸ hprot
      refine ⟨old, hold i k hprot', ?_⟩
      rw [List.getElem?_append_right (h.length ▸ Nat.le_add_right ..), h.length,
        Nat.add_sub_cancel_left, Bytes.getElem?_slice hd, hoffset]
      rfl

end Copy

/-! ## Calls that read -/

namespace Call

variable {m m' : Machine} {l : Ledger} {c c' : Call}

/-- What the call has read on read-only pages so far are the bytes of the executable, and it does
read if a text is asked for. -/
structure Faithful (c : Call) : Prop where
  reads : ∀ copy, Task.copy copy ∈ c.tasks → copy.kind = .read → copy.Faithful c.process
  text : c.purpose = .text → ∀ copy, Task.copy copy ∈ c.tasks → copy.kind = .read

section Reading

variable (h : m.Sound l) (hr : c.Recorded m) (hf : ∀ f, c.frame? = some f → f ∈ l.pinned)
  (hreg : m.Registered c.process)
  (hcontent : ∀ page i k, c.process.Protects page i k →
    m.content? c.process page = (c.process.image.page i k).toOption)
include h hr hf hreg hcontent

/-- A piece of a faithful read is read from the frame that holds its page. -/
theorem faithful_of_transfer {f : FrameNumber} {copy copy' : Copy} {piece : CopyPiece}
    {rest : List Task} (hstage : c.stage = .holding f) (htasks : c.tasks = .copy copy :: rest)
    (hturn : copy.turn c.process.layout = .piece piece)
    (hrun : (Action.transfer c.process copy piece f).run m = .ok copy' m')
    (hcopy : copy.kind = .read → copy.Faithful c.process) :
    copy'.kind = copy.kind ∧ (copy'.kind = .read → copy'.Faithful c.process) := by
  have hframe : c.frame? = some f := by rw [frame?, hstage]
  obtain ⟨i, hi, howner, hpage⟩ := hr f hframe
  have hwanted : c.wanted? = some (piece.page, copy.kind) := by
    simp only [wanted?, htasks, hturn]
  obtain ⟨old, hold, ⟨hk, rfl⟩ | ⟨hk, rfl⟩⟩ := Action.exists_of_run_transfer h (hf f hframe) hi
    howner (hpage _ _ hstage hwanted) (Copy.piece_fits hturn) hreg hrun
  · refine ⟨rfl, fun _ => (hcopy hk).afterRead hturn fun j k hprot => ?_⟩
    have hsame := hcontent _ j k hprot
    rw [hold] at hsame
    cases himage : c.process.image.page j k with
    | ok content =>
      rw [himage] at hsame
      exact congrArg Except.ok (Option.some.inj hsame).symm
    | error stop =>
      rw [himage] at hsame
      contradiction
  · refine ⟨rfl, fun hkind => ?_⟩
    have hboth : AccessKind.write = .read := hk.symm.trans hkind
    contradiction

/-- A call that goes on stays faithful. -/
theorem Stepped.faithful (hs : Stepped m l c (.ongoing c', m')) (hv : c.Valid) (hc : c.Faithful) :
    c'.Faithful := by
  rcases hs.continues hv with ⟨hgoes, -⟩ |
    ⟨f, copy, copy', piece, rest, hstage, htasks, hturn, hrun, rfl⟩
  · have hold : ∀ copy, Task.copy copy ∈ c'.tasks → Task.copy copy ∈ c.tasks := fun copy hmem =>
      (hgoes.reduces.mem hmem).resolve_right fun ⟨_, _, htouch⟩ => nomatch htouch
    refine ⟨fun copy hmem => ?_, fun htext copy hmem => ?_⟩
    · rw [hgoes.process]
      exact hc.reads copy (hold copy hmem)
    · exact hc.text (hgoes.purpose ▸ htext) copy (hold copy hmem)
  · have hfirst : Task.copy copy ∈ c.tasks := by rw [htasks]; exact List.mem_cons_self
    have hrest : ∀ t ∈ rest, t ∈ c.tasks := fun t hmem => by
      rw [htasks]
      exact List.mem_cons_of_mem _ hmem
    obtain ⟨hkind, hfaithful⟩ := faithful_of_transfer h hr hf hreg hcontent hstage htasks hturn hrun
      (hc.reads copy hfirst)
    refine ⟨fun copy₁ hmem => ?_, fun htext copy₁ hmem => ?_⟩
    · cases List.mem_cons.mp hmem with
      | inl heq =>
        cases heq
        exact hfaithful
      | inr hmem => exact hc.reads copy₁ (hrest _ hmem)
    · cases List.mem_cons.mp hmem with
      | inl heq =>
        cases heq
        exact hkind.trans (hc.text htext copy hfirst)
      | inr hmem => exact hc.text htext copy₁ (hrest _ hmem)

end Reading

/-- A call that returns something else than a pin hands over a copy that it made. -/
theorem Stepped.ends {a : Answer} (hs : Stepped m l c (.finished (.returned a), m'))
    (hpin : ∀ g, a ≠ .pinned g) : c.Ends (.returned a) := by
  generalize hx : (Progress.finished (.returned a), m') = x at hs
  cases hs with
  | asleep stage parked => cases hx
  | quiet stage quiet alike waiters =>
    cases hx
    exact quiet
  | @attempt m₁ page kind r ready wanted resolution run =>
    rcases r with ⟨grant, m₂⟩ | ⟨stop, m₂⟩
    · cases grant <;> cases hx
    · cases stop with
      | violation v => cases hx
      | error e =>
        unfold afterSeek afterFailure at hx
        dsimp only at hx
        split at hx <;> cases hx
  | unpinned frame info pins writing valid continues => cases hx
  | kept stage wanted writing =>
    cases hx
    exact absurd rfl (hpin _)
  | copied stage tasks turn copied valid run => cases hx
  | @undone e r stage departure => cases departure <;> cases hx

end Call

/-! ## Moves -/

namespace Machine

variable {m m' : Machine} {p : UserProcess} {page : PageNumber}

/-- An orderly change that does not write to a page leaves it unwritten. -/
theorem Orderly.unwritten {ps : List UserProcess} {target : Option (ProcessId × PageNumber)}
    (h : Orderly m m' ps target) (hp : p ∈ ps)
    (hpid : ∀ q, m.Registered q → q.pid = p.pid → q = p) (hu : m.Unwritten p page)
    (htarget : target ≠ some (p.pid, page)) : m'.Unwritten p page where
  left hd := (h.dirty p hp page hd).elim hu.1 htarget
  right := by
    by_contra hcopy
    rcases h.copies (p.pid, page) hcopy with hold | ⟨q, hq, hqp, hd⟩
    · exact hold hu.2
    · rw [hpid q hq hqp] at hd
      exact hu.1 hd

end Machine

namespace System

variable {s s' : System} {loose : List FrameNumber} {broken : List ProcessId} {mv : Move}
  {p : UserProcess} {page : PageNumber}

/-- Every copy is one of a process that was made, the read-only pages are unwritten, and calls are
let through to them for reads only. -/
structure Untouched (s : System) : Prop where
  stored : ∀ key, s.machine.kernel.swap.copy? key ≠ none → ∃ p ∈ s.processes, p.pid = key.1
  unwritten : ∀ p ∈ s.processes, ∀ page, s.machine.readOnly? p page = some true →
    s.machine.Unwritten p page
  permitted : ∀ c ∈ s.calls, c.Permitted s.machine

theorem Turn.stored (ht : Turn s mv s') (h : s.Sound loose broken) (hu : s.Untouched) :
    ∀ key, s'.machine.kernel.swap.copy? key ≠ none → ∃ p ∈ s'.processes, p.pid = key.1 := by
  intro key hcopy
  cases ht with
  | went processes torn orderly =>
    rw [processes]
    rcases orderly.copies key hcopy with hold | ⟨q, hq, hqp, -⟩
    · exact hu.stored key hold
    · exact ⟨q, h.machine.census.mem hq, hqp⟩
  | tore processes mem torn orderly cleared =>
    rw [processes]
    rcases orderly.copies key hcopy with hold | ⟨q, hq, hqp, -⟩
    · exact hu.stored key hold
    · exact ⟨q, h.machine.census.mem (process?_of_without hq).2, hqp⟩
  | joined processes torn machine pid index room layout table =>
    rw [machine] at hcopy
    obtain ⟨q, hq, hqp⟩ := hu.stored key hcopy
    exact ⟨q, processes ▸ List.mem_append_left _ hq, hqp⟩

/-- The page that a move writes to is not read-only. -/
theorem Untouched.readOnly?_of_target? (hu : s.Untouched) (h : s.Sound loose broken)
    (hp : p ∈ s.processes) (htarget : s.target? mv = some (p.pid, page)) :
    s.machine.readOnly? p page = some false := by
  obtain ⟨w, hw, -⟩ := Option.map_eq_some_iff.mp htarget
  cases mv with
  | step i =>
    obtain ⟨c, hc, -⟩ := Option.bind_eq_some_iff.mp hw
    rw [target?_step hc] at htarget
    obtain ⟨hpid, hadmitted, hwanted⟩ := Call.admitted_of_target? htarget
    have hmem := List.mem_of_getElem? hc
    rw [← h.machine.census.eq_of_pid (h.calls c hmem).1 hp hpid]
    exact hu.permitted c hmem hadmitted page hwanted
  | _ => contradiction

theorem Turn.unwritten (ht : Turn s mv s') (h : s.Sound loose broken) (hu : s.Untouched) :
    ∀ p ∈ s'.processes, ∀ page, s'.machine.readOnly? p page = some true →
      s'.machine.Unwritten p page := by
  have hcensus := h.machine.census
  have hbefore : ∀ p ∈ s.processes, ∀ page, s'.machine.readOnly? p page = some true →
      s.machine.readOnly? p page = some true :=
    fun p hp page hro => (ht.readOnly? h hp page).symm.trans hro
  intro p hp page hro
  cases ht with
  | went processes torn orderly =>
    rw [processes] at hp
    have hold := hbefore p hp page hro
    refine orderly.unwritten hp (fun q hq => hcensus.eq_of_pid (hcensus.mem hq) hp)
      (hu.unwritten p hp page hold) fun htarget => ?_
    rw [hu.readOnly?_of_target? h hp htarget] at hold
    contradiction
  | tore processes mem torn orderly cleared =>
    rw [processes] at hp
    exact orderly.unwritten hp
      (fun q hq => hcensus.eq_of_pid (hcensus.mem (process?_of_without hq).2) hp)
      (hu.unwritten p hp page (hbefore p hp page hro)) nofun
  | @joined q t stackPages processes torn machine pid index room layout table =>
    rw [processes] at hp
    cases List.mem_append.mp hp with
    | inl hold =>
      have hunwritten := hu.unwritten p hold page (hbefore p hold page hro)
      rw [machine, Machine.Unwritten, Dirty, entryOf?, table_joined_of_mem h.machine hold]
      exact hunwritten
    | inr hnew =>
      rw [List.mem_singleton.mp hnew, machine]
      refine ⟨?_, ?_⟩
      · rintro ⟨e, he, hdirty⟩
        rw [entryOf?, table_joined_self index, UserProcess.get?_initialTable layout table,
          Option.map_eq_some_iff] at he
        obtain ⟨source, -, rfl⟩ := he
        simp at hdirty
      · -- a copy would be one of a process that was there before
        by_contra hcopy
        obtain ⟨r, hr, hrp⟩ := hu.stored (q.pid, page) hcopy
        exact hcensus.pid_ne_nextPid room hr (hrp.trans pid)

/-- Calls are still let through for reads only. -/
theorem Untouched.permitted_after (hu : s.Untouched) (h : s.Sound loose broken)
    (hroom : s.HasRoom mv) :
    ∀ c ∈ (s.after mv).calls, c.Permitted (s.after mv).machine := by
  have hkept : ∀ c : Call, c.process ∈ s.processes → c.Permitted s.machine →
      c.Permitted (s.after mv).machine := fun c hp hc hadmitted page hwanted =>
    ((turn h hroom).readOnly? h hp page).trans (hc hadmitted page hwanted)
  intro c' hc'
  cases descends hc' with
  | stays mem => exact hkept c' (h.calls c' mem).1 (hu.permitted c' mem)
  | @steps i c hmv call step =>
    have hmem := List.mem_of_getElem? call
    obtain ⟨hp, hv, hr⟩ := h.calls c hmem
    have hs := stepped_ongoing h call step
    have hprocess := (hs.follows hv hr).1
    exact hkept c' (hprocess ▸ hp) (hs.permitted hv (hu.permitted c hmem))
  | requested mem call =>
    obtain ⟨hstage, -⟩ := toCall_begins _ _
    exact fun hadmitted => absurd hadmitted (Call.not_admitted_of_seeking (call ▸ hstage))
  | spawned purpose stage tasks =>
    exact fun hadmitted => absurd hadmitted (Call.not_admitted_of_seeking stage)

/-- A page that the process may not write to is marked. -/
theorem Marked.readOnly?_of_protects (hm : s.Marked) (hp : p ∈ s.processes) {i k : Nat}
    (hprot : p.Protects page i k) : s.machine.readOnly? p page = some true := by
  rw [hm p hp page, hprot.1, Option.map_some, Executable.protects, hprot.2]

/-- A process finds the executable in its read-only pages. -/
theorem Untouched.content? (hu : s.Untouched) (h : s.Sound loose broken) (hm : s.Marked)
    (hp : s.machine.Registered p) {i k : Nat} (hprot : p.Protects page i k) :
    s.machine.content? p page = (p.image.page i k).toOption := by
  have hmem := h.machine.census.mem hp
  have hro := hm.readOnly?_of_protects hmem hprot
  obtain ⟨e, he, -⟩ := Option.map_eq_some_iff.mp hro
  rw [h.machine.content?_of_unwritten hp he (hu.unwritten p hmem page hro), hprot.initialContent]

/-- Calls of processes that live have read nothing else from read-only pages than the bytes of the
executable. -/
def Truthful (s : System) : Prop :=
  ∀ c ∈ s.calls, s.machine.Registered c.process → c.Faithful

/-- A call that has not begun is faithful. -/
theorem faithful_toCall (p : UserProcess) (r : Request) : (r.toCall p).Faithful := by
  refine ⟨fun copy hmem hkind => ?_, fun htext copy hmem => ?_⟩
  · cases r <;> cases List.mem_singleton.mp hmem
    · exact Copy.faithful_ofRead ..
    · contradiction
    · exact Copy.faithful_ofRead ..
  · cases r <;> cases List.mem_singleton.mp hmem
    · contradiction
    · contradiction
    · rfl

theorem Truthful.after (ht : s.Truthful) (h : s.Sound loose broken) (hroom : s.HasRoom mv)
    (hu : s.Untouched) (hm : s.Marked) : (s.after mv).Truthful := by
  have hturn := turn h hroom
  intro c' hc' hreg
  cases descends hc' with
  | stays mem => exact ht c' mem (hturn.registered_of_mem h (h.calls c' mem).1 hreg)
  | @steps i c hmv call step =>
    have hmem := List.mem_of_getElem? call
    obtain ⟨hp, hv, hr⟩ := h.calls c hmem
    have hs := stepped_ongoing h call step
    rw [(hs.follows hv hr).1] at hreg
    have hbefore := hturn.registered_of_mem h hp hreg
    exact hs.faithful h.machine hr (fun f hf => mem_pins_of_call hmem hf) hbefore
      (fun page i k => hu.content? h hm hbefore) hv (ht c hmem hbefore)
  | requested mem call => exact call ▸ faithful_toCall _ _
  | spawned purpose stage tasks =>
    -- the calls that create processes only write
    refine ⟨fun copy hmem hkind => ?_, fun htext => ?_⟩
    · rcases tasks _ hmem with ⟨mode, hload⟩ | ⟨step, hstep⟩
      · cases hload
      · cases step <;> cases hstep
        contradiction
    · rw [purpose] at htext
      contradiction

/-! ## All reachable systems -/

/-- Read-only pages stay untouched, and calls read what they hold. -/
theorem Reachable.untouched {config : Config} {swap : Swap} {m : Machine}
    (h : Reachable HasRoom (ofMachine m) s) (hboot : Machine.boot config swap = .ok m)
    (hempty : ∀ key, swap.copy? key = none) : s.Marked ∧ s.Untouched ∧ s.Truthful := by
  obtain ⟨-, rfl⟩ := eq_started_of_boot hboot
  refine h.invariant_of_sound (P := fun t => t.Marked ∧ t.Untouched ∧ t.Truthful)
    (sound_boot hboot) ?_ ?_
  · exact ⟨fun _ hp => absurd hp List.not_mem_nil,
      ⟨fun key hcopy => absurd (hempty key) hcopy, fun _ hp => absurd hp List.not_mem_nil,
        fun _ hc => absurd hc List.not_mem_nil⟩,
      fun _ hc => absurd hc List.not_mem_nil⟩
  · rintro t mv loose broken ht hroom ⟨hm, hu, htruthful⟩
    have hturn := turn ht hroom
    exact ⟨hturn.marked ht hm, ⟨hturn.stored ht hu, hturn.unwritten ht hu,
      hu.permitted_after ht hroom⟩, htruthful.after ht hroom hu hm⟩

/-- **Read-only pages never change.** Let moves lead from a machine that has just started, with a
store without copies, to a system in which a process lives. Its read-only bits are those of the
executable. A page with the bit set was not written to and has no copy in the store, and what the
process finds there is the page of the executable. A call that wants to write there is refused when
it asks for the page, with nothing changed, and it neither waits for the page nor holds it. What
calls of the process read there are the bytes of the executable, and the copies and texts that they
hand over are made of what they read. -/
theorem read_only_forever {config : Config} {swap : Swap} {m : Machine}
    (hboot : Machine.boot config swap = .ok m) (hempty : ∀ key, swap.copy? key = none)
    (hs : Reachable HasRoom (ofMachine m) s) (hp : s.machine.Registered p) :
    (∀ page, s.machine.readOnly? p page = (p.layout.source? page).map p.image.protects) ∧
    (∀ page i k, p.Protects page i k →
      s.machine.Unwritten p page ∧
      s.machine.content? p page = (p.image.page i k).toOption ∧
      ∀ c : Call, c.process = p → c.wanted? = some (page, .write) →
        (c.stage = .seeking → c.step s.machine =
          (c.afterFailure (.error (.readOnlyViolation p.pid page)), s.machine)) ∧
        (c ∈ s.calls → ¬ c.Admitted)) ∧
    ∀ c ∈ s.calls, c.process = p →
      (∀ copy, Task.copy copy ∈ c.tasks → copy.kind = .read → copy.Faithful p) ∧
      ∀ a m', c.step s.machine = (.finished (.returned a), m') →
        (∀ copy, a = .copied copy → Task.copy copy ∈ c.tasks) ∧
        ∀ t, a = .text t → ∃ copy, Task.copy copy ∈ c.tasks ∧ copy.kind = .read ∧
          t = terminatedText? copy.bytes := by
  obtain ⟨hm, hu, htruthful⟩ := hs.untouched hboot hempty
  obtain ⟨loose, broken, hsound⟩ := hs.sound (sound_boot hboot)
  have hmem := hsound.machine.census.mem hp
  refine ⟨hm p hmem, fun page i k hprot => ?_, fun c hc hcp => ?_⟩
  · have hro := hm.readOnly?_of_protects hmem hprot
    refine ⟨hu.unwritten p hmem page hro, hu.content? hsound hm hp hprot,
      fun c hcp hwanted => ⟨fun hstage => ?_, fun hc hadmitted => ?_⟩⟩
    · rw [Call.step_of_seeking hwanted hstage, hcp, Action.run_resolve_of_readOnly hp hro]
      rfl
    · have hpermitted := hu.permitted c hc hadmitted page hwanted
      rw [hcp, hro] at hpermitted
      contradiction
  · subst hcp
    have hfaithful := htruthful c hc hp
    obtain ⟨i, hci⟩ := List.getElem?_of_mem hc
    have hspec := stepped hsound hci
    refine ⟨hfaithful.reads, fun a m' hstep => ?_⟩
    rw [hstep] at hspec
    refine ⟨fun copy ha => ?_, fun t ha => ?_⟩
    · subst ha
      exact (hspec.ends fun _ => nofun).copied copy rfl
    · subst ha
      obtain ⟨htext, copy, hcopy, ht⟩ := (hspec.ends fun _ => nofun).text t rfl
      exact ⟨copy, hcopy, hfaithful.text htext copy hcopy, ht⟩

/-- An executable with one page, which is read-only and begins with the bytes 7 and 8. -/
def inscription : Executable where
  sections := [⟨"inscription", ⟨0⟩, 1, true⟩]
  entry := .zero
  page index k :=
    if index = 0 ∧ k = 0 then .ok (Page.ofPrefix [7, 8])
    else .error (.error (.pageOutOfRange index k))
  readOnly _ := true

/-- A system with one frame, in which the page was read and somebody is about to write to it. -/
def aboutToDeface : System := (ofMachine (fresh 1)).run
  [.spawn inscription [] .demand, .step 0, .request 0 (.read .zero 2), .step 0, .step 0, .step 0,
    .request 0 (.write .zero [9])]

/-- The read hands over the bytes of the executable, and the write is refused. -/
theorem read_only_forever_aboutToDeface : ∃ p c c' copy,
    aboutToDeface.calls = [c, c'] ∧
    aboutToDeface.machine.content? p ⟨0⟩ = some (Page.ofPrefix [7, 8]) ∧
    (c.step aboutToDeface.machine).1 = .finished (.returned (.copied copy)) ∧
    copy.done = 2 ∧ copy.Faithful p ∧
    c'.step aboutToDeface.machine =
      (.finished (.failed (.readOnlyViolation p.pid ⟨0⟩) c'.copy?), aboutToDeface.machine) := by
  have hreach : Reachable HasRoom (ofMachine (fresh 1)) aboutToDeface :=
    Reachable.start.run (by decide)
  obtain ⟨-, hpages, hcalls⟩ := @read_only_forever aboutToDeface
    (aboutToDeface.processes.head (List.cons_ne_nil _ _)) ⟨1, 1, true⟩ (.empty none) (fresh 1) rfl
    (fun _ => rfl) hreach rfl
  obtain ⟨-, hcontent, hwrites⟩ := hpages ⟨0⟩ 0 0 ⟨rfl, rfl⟩
  obtain ⟨hrefused, -⟩ := hwrites (aboutToDeface.calls.getLast (List.cons_ne_nil _ _)) rfl rfl
  obtain ⟨hfaithful, hends⟩ := hcalls (aboutToDeface.calls.head (List.cons_ne_nil _ _))
    (List.head_mem _) rfl
  obtain ⟨copy, m', hstep, hdone, hkind⟩ : ∃ (copy : Copy) (m' : Machine),
      (aboutToDeface.calls.head (List.cons_ne_nil _ _)).step aboutToDeface.machine =
        (.finished (.returned (.copied copy)), m') ∧ copy.done = 2 ∧ copy.kind = .read :=
    ⟨_, _, rfl, rfl, rfl⟩
  have hread := hfaithful copy ((hends _ m' hstep).1 copy rfl) hkind
  exact ⟨_, _, _, copy, rfl, hcontent, congrArg Prod.fst hstep, hdone, hread, hrefused rfl⟩

end System

end DemandPaging
