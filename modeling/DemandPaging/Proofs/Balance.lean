import DemandPaging.Proofs.Accesses
import DemandPaging.Proofs.Arguments
import DemandPaging.Proofs.Attributes
import DemandPaging.Proofs.Consistency
import DemandPaging.Proofs.Traffic
import DemandPaging.Proofs.Transparency

/-!
# The books balance

A run keeps books of what the kernel does not count: the frames that teardowns gave back, and the pages
that were written to since they were last brought in (`Books`). With these, the counters of the kernel
and of the swap store are exact, and a page is saved when it loses its frame if and only if it was
written to (`System.Booked.balanced`).
-/

namespace DemandPaging

open Machine

/-! ## What the next step of a call does -/

/-- Frames that the process with the given identity, if any, owned and that nobody owns any more. -/
def Machine.freedOf (m m' : Machine) : Option ProcessId → Nat
  | none => 0
  | some pid => (m.kernel.frames.ownedBy pid).countP fun x => (m'.ownerOf? x.1).isNone

namespace Call

variable {m m' : Machine} {l : Ledger} {c c' : Call}

/-- Waking up is of no account. -/
theorem Ready.unmoved (h : c.Ready m m') : m.Unmoved m' := by
  cases h with
  | seeking stage => exact .refl m
  | woken stage parked => exact ⟨rfl, rfl, rfl⟩

theorem afterSeek_of_endsIn {P : Machine → Prop}
    {r : EStateM.Result (Stop VmError) Machine Grant} (h : EndsIn P r) : P (c.afterSeek r).2 := by
  obtain ⟨⟨f⟩ | ⟨t⟩, m₁⟩ | ⟨stop, m₁⟩ := r <;> exact h

section Step

variable (h : m.Sound l) (hp : c.process ∈ l.processes)
include h hp

/-- A teardown that a failed creation ends with. -/
theorem undo_traffic {e : VmError} (hstage : c.stage = .undoing e) :
    m.Traffic (c.step m).2 0 (m.freedOf (c.step m).2 (some c.process.pid)) none := by
  have hproceed : c.proceed = c.undo e := by rw [proceed, hstage]
  have hgone := Action.tearDown_traffic (h.alike (.noted m (.spawnFailed c.process.pid e))) hp
  refine step_of_endsIn
    (P := fun m' => m.Traffic m' 0 (m.freedOf m' (some c.process.pid)) none) ?_
  rw [hproceed, undo, EStateM.run_bind, Action.run_note]
  dsimp only
  rw [EStateM.run_bind]
  cases hrun : (Action.tearDown c.process).run (m.noted (.spawnFailed c.process.pid e)) <;>
  · rw [hrun] at hgone
    exact Traffic.after hgone (.noted m _)

variable (himage : c.process.image.Answers)
  (hsize : m.kernel.frames.directory.size ≤ maxEntryFrame + 1)
include himage hsize

/-- A call that is about to ask for a page asks for it, or does nothing of account. -/
theorem begin_traffic (hstage : c.stage = .seeking) : m.Traffic (c.step m).2 0 0 none := by
  cases hwanted : c.wanted? with
  | some w =>
    rw [step_of_seeking hwanted hstage]
    exact afterSeek_of_endsIn (Action.resolve_traffic h himage hsize hp w.1 w.2)
  | none =>
    have hproceed : c.proceed = c.begin := by rw [proceed, hstage]
    have hbegin : Action.Ensures Unmoved c.begin :=
      c.ensures_begin Action.unmoved_note fun _ _ hw => by
        rw [hwanted] at hw
        contradiction
    exact (ensures_step (hproceed ▸ hbegin) m).traffic

/-- **The traffic of a step.** -/
theorem step_traffic (hv : c.Valid) (hr : c.Recorded m)
    (hf : ∀ f, c.frame? = some f → f ∈ l.pinned) :
    m.Traffic (c.step m).2 0 (m.freedOf (c.step m).2 c.torn?) c.target? := by
  have hspec := step_spec h hp hv hr hf
  have htarget : c.writing? = none → c.target? = none := fun hw => by
    rw [target?, hw, Option.map_none]
  generalize hx : c.step m = x at hspec
  cases hspec with
  | asleep stage parked =>
    rw [htarget (writing?_of_frame? (by rw [frame?, stage])), torn?, stage]
    exact (Unmoved.refl m).traffic
  | quiet stage quiet alike waiters =>
    rw [htarget (writing?_of_frame? (frame?_of_seeking stage)), torn?_of_seeking stage, ← hx]
    exact begin_traffic h hp himage hsize stage
  | @attempt m₁ page kind r ready wanted resolution run =>
    rw [htarget (writing?_of_frame? ready.frame?), ready.torn?]
    have hsize₁ : m₁.kernel.frames.directory.size ≤ maxEntryFrame + 1 := by
      rw [← ready.alike.marks.1]
      exact hsize
    have htraffic := Action.resolve_traffic (h.alike ready.alike) himage hsize₁ hp page kind
    rw [run] at htraffic
    exact (afterSeek_of_endsIn htraffic).after ready.unmoved
  | unpinned frame info pins writing valid continues =>
    rw [htarget writing, torn?_of_frame frame]
    exact (Unmoved.withFrames (FrameTable.free_dropPin ..)).traffic
  | kept stage wanted writing =>
    rw [htarget writing, torn?, stage]
    exact (Unmoved.refl m).traffic
  | @copied f copy copy' piece rest m' stage tasks turn copied valid run =>
    have htransfer := Action.transfer_traffic h.census hp run
    have hwrites : c.target? =
        if copy.kind.isWrite then some (c.process.pid, piece.page) else none := by
      cases hkind : copy.kind <;> simp [target?, writing?, stage, tasks, turn, hkind, AccessKind.isWrite]
    rw [torn?, stage, hwrites]
    exact htransfer
  | undone stage departure =>
    rw [htarget (writing?_of_frame? (by rw [frame?, stage])), torn?, stage, ← hx]
    exact undo_traffic h hp stage

end Step

end Call

namespace Machine

variable {m m' : Machine} {l : Ledger} {p : UserProcess}

/-- A process that joins has no page in a frame. -/
theorem traffic_joined (h : m.Sound l) {t : PageTable}
    (hindex : p.table.index = m.tables.size)
    (habsent : ∀ page e, t.get? page = some e → e.frame? = none) :
    m.Traffic (m.joined p t) 0 0 none where
  balances := ⟨rfl, rfl, rfl, Nat.le_refl _, Nat.le_refl _⟩
  evicts := .nobody rfl rfl
  marks := by
    have hold : ∀ q page, (m.joined p t).Registered q → (m.joined p t).Resident q page →
        m.Registered q := by
      intro q page hq hr
      rcases registered_joined hq with rfl | ⟨-, hq⟩
      · exact absurd (translate?_joined_self hindex habsent page) hr
      · exact hq
    refine ⟨hold, fun q page hq hr => dirty_of_entryOf? ?_ hr⟩
    rw [entryOf?, table_joined h (hold q page hq hr)]
    rfl

/-- Nothing is lost if copies become unreadable. -/
theorem traffic_spoiled (m : Machine) (unreadable : PageNumber → Bool) :
    m.Traffic (m.spoiled unreadable) 0 0 none :=
  ⟨⟨rfl, rfl, rfl, Nat.le_refl _, Nat.le_refl _⟩, .nobody rfl rfl,
    fun _ _ hq _ => hq, fun _ _ _ hr => dirty_of_entryOf? rfl hr⟩

end Machine

namespace System

variable {s : System} {loose : List FrameNumber} {broken : List ProcessId}

/-- **The traffic of a move.** -/
theorem move_traffic (h : s.Sound loose broken) (himages : ∀ p ∈ s.processes, p.image.Answers)
    (hsize : s.machine.kernel.frames.directory.size ≤ maxEntryFrame + 1) (mv : Move) :
    s.machine.Traffic (s.after mv).machine 0 (s.machine.freedOf (s.after mv).machine (s.torn? mv))
      (s.target? mv) := by
  have hstays : s.machine.Traffic s.machine 0 0 none := (Unmoved.refl _).traffic
  cases mv with
  | spawn image args mode =>
    rcases move_spawn s image args mode with ⟨stop, -, hmove⟩ | ⟨c, m, hbirth, hmove⟩
    · rw [after, hmove]
      exact hstays
    · rw [after, hmove]
      cases hbirth with
      | begun pid index himage fits absent layout table argv argc size =>
        exact traffic_joined h.machine index absent
  | request i r =>
    have hsame : (s.after (.request i r)).machine = s.machine := by
      simp only [after, move]
      split <;> rfl
    rw [hsame]
    exact hstays
  | step i =>
    cases hc : s.calls[i]? with
    | none =>
      have hsame : s.after (.step i) = s := by simp only [after, move, stepCall, hc]
      rw [hsame, torn?, target?, writing?, hc]
      exact hstays
    | some c =>
      have hmem := List.mem_of_getElem? hc
      obtain ⟨hp, hv, hr⟩ := h.calls c hmem
      rw [machine_after_step hc, torn?_step hc, target?_step hc]
      exact Call.step_traffic h.machine hp (himages _ hp) hsize hv hr fun _ => mem_pins_of_call hmem
  | drop i =>
    rcases move_drop h i with hmove | ⟨g, f, -, -, -, hmove⟩
    · rw [after, hmove]
      exact hstays
    · rw [after, hmove]
      exact (Unmoved.withFrames (FrameTable.free_dropPin ..)).traffic
  | release i =>
    cases hp : s.processes[i]? with
    | none =>
      have hsame : s.after (.release i) = s := by simp only [after, move, hp]
      rw [hsame, torn?, hp]
      exact hstays
    | some p =>
      have hgone := Action.tearDown_traffic h.machine (List.mem_of_getElem? hp)
      rw [torn?_release hp]
      simp only [after, move, hp, perform]
      cases hrun : (Action.tearDown p).run s.machine <;>
      · rw [hrun] at hgone
        exact hgone
  | spoil unreadable => exact s.machine.traffic_spoiled unreadable

end System

/-! ## Writes have bytes -/

/-- A write has the bytes that it still has to write. -/
def Copy.Stocked (c : Copy) : Prop := c.kind = .write → c.done + c.pending.length = c.length

namespace Copy

theorem stocked_ofWrite (start : VirtualAddress) (bytes : Bytes) : (ofWrite start bytes).Stocked :=
  fun _ => Nat.zero_add _

theorem stocked_ofRead (start : VirtualAddress) (n : Nat) : (ofRead start n).Stocked := nofun

/-- A piece of a write has bytes, and the rest of them stays. -/
theorem Stocked.piece {c : Copy} {l : Layout} {piece : CopyPiece} (h : c.Stocked)
    (hkind : c.kind = .write) (hturn : c.turn l = .piece piece) :
    c.outgoing piece ≠ [] ∧ (c.afterWrite piece).Stocked := by
  have hpending := h hkind
  have hlt := lt_of_turn hturn
  have hpos := amount_pos hturn
  obtain ⟨a, -, rfl⟩ := exists_of_turn hturn
  have hamount : (c.pieceAt a).amount ≤ c.pending.length := by
    simp only [pieceAt]
    omega
  constructor
  · rw [outgoing, Ne, List.take_eq_nil_iff]
    rintro (hzero | hnil)
    · omega
    · rw [hnil] at hamount
      exact absurd hamount (Nat.not_le.mpr hpos)
  · intro _
    simp only [afterWrite, List.length_drop]
    omega

end Copy

namespace Action

variable {m m' : Machine} {p : UserProcess} {c c' : Copy} {piece : CopyPiece} {f : FrameNumber}

theorem kind_of_transfer (h : (transfer p c piece f).run m = .ok c' m') : c'.kind = c.kind := by
  cases hkind : c.kind with
  | write =>
    rw [eq_afterWrite hkind h]
    exact hkind
  | read =>
    simp only [transfer, hkind, run_bind_eq_ok, EStateM.run_get, run_ofExcept_eq_ok, run_onTable] at h
    obtain ⟨m₁, m₂, -, bs, m₃, -, c₁, m₄, hread, u, m₅, -, h⟩ := h
    cases hread
    cases h
    exact hkind

/-- What is left of a write has its bytes. -/
theorem stocked_of_transfer {l : Layout} (hc : c.Stocked) (hturn : c.turn l = .piece piece)
    (h : (transfer p c piece f).run m = .ok c' m') : c'.Stocked := by
  intro hkind
  have hkind' := (kind_of_transfer h).symm.trans hkind
  rw [eq_afterWrite hkind' h] at hkind ⊢
  exact (hc.piece hkind' hturn).2 hkind

end Action

namespace Call

variable {m m' : Machine} {l : Ledger} {c c' : Call}

/-- The writes of the call have the bytes that they still have to write. -/
def Stocked (c : Call) : Prop := ∀ copy, Task.copy copy ∈ c.tasks → copy.Stocked

/-- A piece that is about to be written has bytes. -/
theorem Stocked.ne_nil (hc : c.Stocked) {page : PageNumber} {offset : Nat} {bytes : Bytes}
    (hw : c.writing? = some (page, offset, bytes)) : bytes ≠ [] := by
  unfold writing? at hw
  split at hw
  · next f copy rest stage tasks =>
    split at hw
    · next piece hkind hturn =>
      cases hw
      exact ((hc copy (tasks ▸ List.mem_cons_self)).piece hkind hturn).1
    · contradiction
  · contradiction

theorem Stepped.stocked (hs : Stepped m l c (.ongoing c', m')) (hv : c.Valid) (hc : c.Stocked) :
    c'.Stocked := by
  rcases hs.continues hv with ⟨hgoes, -⟩ |
    ⟨f, copy, copy', piece, rest, hstage, htasks, hturn, hrun, rfl⟩
  · intro copy hmem
    exact hc copy ((hgoes.reduces.mem hmem).resolve_right fun ⟨_, _, htouch⟩ => nomatch htouch)
  · intro copy₁ hmem
    cases List.mem_cons.mp hmem with
    | inl heq =>
      cases heq
      exact Action.stocked_of_transfer (hc copy (htasks ▸ List.mem_cons_self)) hturn hrun
    | inr hmem => exact hc copy₁ (htasks ▸ List.mem_cons_of_mem _ hmem)

theorem stocked_toCall (p : UserProcess) (r : Request) : (r.toCall p).Stocked := by
  intro copy hmem
  cases r <;> cases List.mem_singleton.mp hmem
  · exact Copy.stocked_ofRead _ _
  · exact Copy.stocked_ofWrite _ _
  · exact Copy.stocked_ofRead _ _

end Call

namespace System

variable {s s' : System} {loose : List FrameNumber} {broken : List ProcessId}

/-- Nobody has run out of bytes to write. -/
def Stocked (s : System) : Prop := ∀ c ∈ s.calls, c.Stocked

theorem Stocked.after (hs : s.Stocked) (h : s.Sound loose broken) (mv : Move) :
    (s.after mv).Stocked := by
  intro c' hc'
  cases descends hc' with
  | stays mem => exact hs c' mem
  | @steps i c hmv call step =>
    have hmem := List.mem_of_getElem? call
    exact (stepped_ongoing h call step).stocked (h.calls c hmem).2.1 (hs c hmem)
  | requested mem call => exact call ▸ Call.stocked_toCall _ _
  | spawned purpose stage tasks =>
    intro copy hmem
    rcases tasks _ hmem with ⟨mode, hload⟩ | ⟨step, hstep⟩
    · cases hload
    · cases step <;> cases hstep
      exact Copy.stocked_ofWrite _ _

theorem Reachable.stocked {config : Config} {swap : Swap} {m : Machine}
    (hs : Reachable HasRoom (ofMachine m) s) (hboot : Machine.boot config swap = .ok m) :
    s.Stocked :=
  hs.invariant_of_sound (P := Stocked) (sound_boot hboot) (fun _ hc => nomatch hc)
    fun _ mv _ _ ht _ hstocked => hstocked.after ht mv

end System

/-! ## Books -/

/-- Frames that have an owner. -/
def Machine.owned (m : Machine) : Nat :=
  m.kernel.frames.directory.toList.countP fun x => x.2.owner.isSome

/-- A frame has an owner, or it is free. -/
theorem Machine.owned_add_size {m : Machine} {l : Ledger} (h : m.Sound l) :
    m.owned + m.kernel.frames.free.size = m.kernel.frames.directory.size := by
  have hall : m.kernel.frames.directory.toList.length = m.kernel.frames.directory.size := by
    simp [Directory.toList, Directory.size]
  have hsplit := List.length_eq_countP_add_countP
    (fun x : FrameNumber × FrameInfo ProcessId => x.2.isFree) (l := m.kernel.frames.directory.toList)
  have howned : (fun x : FrameNumber × FrameInfo ProcessId => decide ¬ x.2.isFree = true) =
      fun x => x.2.owner.isSome := by
    funext x
    cases ho : x.2.owner <;> simp [FrameInfo.isFree, ho]
  rw [h.pool.countP_isFree, howned, hall] at hsplit
  rw [owned, hsplit, Nat.add_comm]

/-- What a run has done that the kernel does not count. -/
structure Books where
  /-- Frames that teardowns gave back. -/
  freed : Nat
  /-- Pages to which a byte was written since they were last brought in. -/
  written : ProcessId × PageNumber → Prop

namespace System

/-- The move copies at least one byte to the page. -/
def Writes (s : System) (mv : Move) (key : ProcessId × PageNumber) : Prop :=
  ∃ q offset bytes, s.writing? mv = some (q, key.2, offset, bytes) ∧ q.pid = key.1 ∧ bytes ≠ []

/-- The move brings the page in. -/
def Installs (s : System) (mv : Move) (key : ProcessId × PageNumber) : Prop :=
  ∃ q, (s.after mv).machine.process? key.1 = some q ∧ ¬ s.machine.Resident q key.2 ∧
    (s.after mv).machine.Resident q key.2

end System

namespace Books

/-- The books of a run that has not begun. -/
def blank : Books := ⟨0, fun _ => False⟩

/-- The books after one more move. -/
def next (b : Books) (s : System) (mv : Move) : Books where
  freed := b.freed + s.machine.freedOf (s.after mv).machine (s.torn? mv)
  written key := s.Writes mv key ∨ b.written key ∧ ¬ s.Installs mv key

end Books

namespace System

/-- The systems that moves lead to, with the books of the run. -/
inductive Booked (start : System) : System → Books → Prop
  | start : Booked start start .blank
  | move {s : System} {b : Books} (mv : Move) :
    Booked start s b → s.Trusts mv → Booked start (s.after mv) (b.next s mv)

variable {start s : System} {b : Books}

/-- Books can be kept of every run. -/
theorem Reachable.booked (h : Reachable Trusts start s) : ∃ b, Booked start s b := by
  induction h with
  | start => exact ⟨_, .start⟩
  | move mv _ htrusts ih =>
    obtain ⟨b, hb⟩ := ih
    exact ⟨_, hb.move mv htrusts⟩

theorem Booked.reachable (h : Booked start s b) : Reachable Trusts start s := by
  induction h with
  | start => exact .start
  | move mv _ htrusts ih => exact ih.move mv htrusts

/-- A move copies a byte to a page if and only if the page is its target. -/
theorem Stocked.writes_iff (hs : s.Stocked) (mv : Move) (key : ProcessId × PageNumber) :
    s.Writes mv key ↔ s.target? mv = some key := by
  obtain ⟨pid, page⟩ := key
  simp only [Writes, target?, Option.map_eq_some_iff, Prod.mk.injEq]
  constructor
  · rintro ⟨q, offset, bytes, hw, hpid, -⟩
    exact ⟨_, hw, hpid, rfl⟩
  · rintro ⟨⟨q, page, offset, bytes⟩, hw, hpid, rfl⟩
    obtain ⟨i, c, -, hc, hwriting, -⟩ := writing?_eq_some.mp hw
    exact ⟨q, offset, bytes, hw, hpid, (hs c (List.mem_of_getElem? hc)).ne_nil hwriting⟩

/-- Since the machine was `m₀`, the counters have moved on as the books say, and of the pages in frames
those are dirty that the books show as written. -/
structure Tallies (m₀ : Machine) (s : System) (b : Books) : Prop where
  balances : m₀.Balances s.machine 0 b.freed
  dirty : ∀ q page, s.machine.Registered q → s.machine.Resident q page →
    (s.machine.Dirty q page ↔ b.written (q.pid, page))

/-- One move with its traffic. -/
theorem Tallies.next {m₀ : Machine} (h : Tallies m₀ s b) (hs : s.Stocked) {mv : Move}
    (ht : s.machine.Traffic (s.after mv).machine 0
      (s.machine.freedOf (s.after mv).machine (s.torn? mv)) (s.target? mv)) :
    Tallies m₀ (s.after mv) (b.next s mv) where
  balances := h.balances.trans ht.balances
  dirty q page hq hr := by
    refine (ht.marks.dirty q page hq hr).trans (or_congr (hs.writes_iff mv _).symm ?_)
    by_cases hbefore : s.machine.Resident q page
    · have hinstalls : ¬ s.Installs mv (q.pid, page) := by
        rintro ⟨q', hq', habsent, -⟩
        obtain rfl := Option.some.inj (hq.symm.trans hq')
        exact habsent hbefore
      rw [h.dirty q page (ht.marks.registered q page hq hr) hbefore]
      simp [hbefore, hinstalls]
    · have hinstalls : s.Installs mv (q.pid, page) := ⟨q, hq, hbefore, hr⟩
      simp [hbefore, hinstalls]

/-- What the move `mv` evicts and stores, with the books `b`: nothing, or the page of one frame, whose
bytes are stored if and only if the page was written to. -/
inductive Displaces (s : System) (b : Books) (mv : Move) : Prop
  | nobody
      (evictions : (s.after mv).machine.kernel.stats.evictions = s.machine.kernel.stats.evictions)
      (stores : (s.after mv).machine.kernel.swap.stores = s.machine.kernel.swap.stores)
  | page {q : UserProcess} {page : PageNumber} {f : FrameNumber} {content : Page}
      (registered : s.machine.Registered q)
      (resident : (s.machine.table q).translate? page = some f)
      (bytes : s.machine.kernel.memory.frames[f.toNat]? = some content)
      (evictions : (s.after mv).machine.kernel.stats.evictions =
        s.machine.kernel.stats.evictions + 1)
      (gone : ¬ (s.after mv).machine.Resident q page)
      (saved : b.written (q.pid, page) → ∃ swap,
        s.machine.kernel.swap.store (q.pid, page) content.bytes = .ok swap ∧
        (s.after mv).machine.kernel.swap =
          { swap with loads := (s.after mv).machine.kernel.swap.loads } ∧
        (s.after mv).machine.kernel.swap.stores = s.machine.kernel.swap.stores + 1)
      (spared : ¬ b.written (q.pid, page) → (s.after mv).machine.kernel.swap =
        { s.machine.kernel.swap with loads := (s.after mv).machine.kernel.swap.loads })

/-- The books tell whether an evicted page was dirty. -/
theorem Tallies.displaces {m₀ : Machine} {l : Ledger} (h : Tallies m₀ s b) (hs : s.machine.Sound l)
    {mv : Move} (he : s.machine.Evicts (s.after mv).machine) : s.Displaces b mv := by
  cases he with
  | nobody evictions stores => exact .nobody evictions stores
  | @page q page e f registered entry frame evictions gone saved spared =>
    have hresident : (s.machine.table q).translate? page = some f := by
      rw [translate?_table, entry, Option.bind_some, frame]
    have hdirty : e.dirty = true ↔ b.written (q.pid, page) := by
      rw [← h.dirty q page registered (by rw [Resident, hresident]; exact Option.some_ne_none f)]
      simp [Dirty, entry]
    obtain ⟨i, hi, -, -⟩ := hs.agreement.mapped q page f registered hresident
    obtain ⟨content, hcontent⟩ := hs.exists_bytes hi
    refine .page registered hresident hcontent evictions gone (fun hw => ?_) fun hw => ?_
    · obtain ⟨content', swap, hcontent', hstore, hswap⟩ := saved (hdirty.mpr hw)
      obtain rfl := Option.some.inj (hcontent.symm.trans hcontent')
      refine ⟨swap, hstore, hswap, ?_⟩
      rw [hswap]
      exact (counts_of_store hstore).1
    · exact spared (Bool.eq_false_iff.mpr fun hd => hw (hdirty.mp hd))

section Boot

variable {config : Config} {capacity : Option Nat} {m : Machine}
  (hboot : Machine.boot config (.empty capacity) = .ok m) (hcount : config.frameCount ≤ 2 ^ 24)
include hboot

theorem Booked.sound (hs : Booked (ofMachine m) s b) : ∃ broken, s.Sound [] broken := by
  obtain ⟨broken, hh⟩ := hs.reachable.history
  exact ⟨broken, hh.answers hboot⟩

include hcount

/-- The traffic of a move that a booked run makes next. -/
theorem Booked.traffic (hs : Booked (ofMachine m) s b) (mv : Move) :
    s.machine.Traffic (s.after mv).machine 0
      (s.machine.freedOf (s.after mv).machine (s.torn? mv)) (s.target? mv) := by
  obtain ⟨broken, hsound⟩ := hs.sound hboot
  refine move_traffic hsound hs.reachable.answers ?_ mv
  rw [(hs.reachable.mono fun _ _ htrusts => htrusts.1).size_directory hboot]
  exact hcount

theorem Booked.tallies (hs : Booked (ofMachine m) s b) : Tallies m s b := by
  induction hs with
  | start => exact ⟨⟨rfl, rfl, rfl, Nat.le_refl _, Nat.le_refl _⟩, fun q _ hq => by
      obtain ⟨-, rfl⟩ := eq_started_of_boot hboot
      cases hq⟩
  | move mv hs _ ih =>
    have hreach := hs.reachable.mono fun _ _ htrusts => htrusts.1
    exact ih.next (hreach.stocked hboot) (hs.traffic hboot hcount mv)

/-- **The books balance.** With the books of the run, the counters of the kernel and those of the store
are exact in every system that a run leads to: a frame that has an owner is there for a fault, unless
its page was evicted or its owner torn down. In a move after that at most one page is evicted, and its
bytes are stored, once, if and only if it was written to since it was last brought in. -/
theorem Booked.balanced (hs : Booked (ofMachine m) s b) :
    s.machine.owned + s.machine.kernel.stats.evictions + b.freed = s.machine.kernel.stats.faults ∧
    s.machine.kernel.stats.swapWrites = s.machine.kernel.swap.stores ∧
    s.machine.kernel.stats.swapReads = s.machine.kernel.swap.loads ∧
    s.machine.kernel.stats.swapWrites ≤ s.machine.kernel.stats.evictions ∧
    s.machine.kernel.stats.evictions ≤ s.machine.kernel.stats.faults ∧
    s.machine.kernel.stats.swapReads ≤ s.machine.kernel.stats.faults ∧
    ∀ mv, s.Displaces b mv := by
  obtain ⟨broken, hsound⟩ := hs.sound hboot
  have htallies := hs.tallies hboot hcount
  have howned := Machine.owned_add_size hsound.machine
  rw [(hs.reachable.mono fun _ _ htrusts => htrusts.1).size_directory hboot] at howned
  obtain ⟨hframes, hwrites, hreads, hwrites_le, hreads_le⟩ := htallies.balances
  obtain ⟨-, rfl⟩ := eq_started_of_boot hboot
  have hfree : (started config (.empty capacity)).kernel.frames.free.size = config.frameCount := by
    simp [started, FrameTable.ofSize, FreeList.full, FreeList.size]
  simp only [hfree] at hframes
  simp only [started, Stats.zero, Swap.empty] at hframes hwrites hreads hwrites_le hreads_le
  refine ⟨by omega, by omega, by omega, by omega, by omega, by omega, fun mv => ?_⟩
  exact htallies.displaces hsound.machine (hs.traffic hboot hcount mv).evicts

end Boot

/-- A system with one frame. A page was written to, lost the frame to another page, and came back.
Then its process was torn down. -/
def exchanged : System := (ofMachine (started ⟨1, 2, true⟩ (.empty none))).run
  [.spawn (Image.ofMemory .empty).toExecutable [] .demand, .step 0, .request 0 (.write .zero [7]),
    .step 0, .step 0, .step 0, .step 0, .request 0 (.fault ⟨1⟩), .step 0, .step 0, .step 0,
    .request 0 (.fault ⟨0⟩), .step 0, .step 0, .step 0, .release 0]

/-- Of three faults two were at the cost of a page, which was written to in one of the two cases, and
the third frame was given back. -/
theorem balanced_exchanged : ∃ b, Booked (ofMachine (started ⟨1, 2, true⟩ (.empty none))) exchanged b ∧
    b.freed = 1 ∧ exchanged.machine.kernel.swap.stores = 1 ∧
    exchanged.machine.kernel.swap.loads = 1 := by
  have hspawn : (ofMachine (started ⟨1, 2, true⟩ (.empty none))).Trusts
      (.spawn (Image.ofMemory .empty).toExecutable [] .demand) :=
    trusts_image _ _ _ (show 0 + 1 < wordBound by decide)
  have hreach : Reachable Trusts (ofMachine (started ⟨1, 2, true⟩ (.empty none))) exchanged :=
    Reachable.start.run ⟨hspawn, trusts_of_ne nofun, trusts_of_ne nofun, trusts_of_ne nofun,
      trusts_of_ne nofun, trusts_of_ne nofun, trusts_of_ne nofun, trusts_of_ne nofun,
      trusts_of_ne nofun, trusts_of_ne nofun, trusts_of_ne nofun, trusts_of_ne nofun,
      trusts_of_ne nofun, trusts_of_ne nofun, trusts_of_ne nofun, trusts_of_ne nofun, trivial⟩
  have hcounts : exchanged.machine.kernel.stats.faults = 3 ∧
      exchanged.machine.kernel.stats.evictions = 2 ∧ exchanged.machine.kernel.stats.swapWrites = 1 ∧
      exchanged.machine.kernel.stats.swapReads = 1 ∧ exchanged.machine.owned = 0 := by
    decide +kernel
  obtain ⟨hfaults, hevictions, hwrites, hreads, howned⟩ := hcounts
  obtain ⟨b, hb⟩ := hreach.booked
  obtain ⟨hframes, hstores, hloads, -⟩ := @Booked.balanced exchanged b ⟨1, 2, true⟩ none
    (started ⟨1, 2, true⟩ (.empty none)) rfl (by decide) hb
  exact ⟨b, hb, by omega, by omega, by omega⟩

end System

end DemandPaging
