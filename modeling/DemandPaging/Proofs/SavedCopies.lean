import DemandPaging.Proofs.ReadOnly
import DemandPaging.Proofs.SwapClients
import DemandPaging.Proofs.Tolerance

/-!
# Saved copies

The store never holds more copies than it may (`Machine.Bounded`), and it holds a copy only for a
process that lives and may write to the page (`Machine.Needs`). A teardown gives the frames back first,
and forgets the copies of its process after it has let go of the pool, so others may come in between.
The histories of such a system (`System.Leisurely`) name the processes whose copies are yet to be
forgotten, and for these alone the store may hold copies that nobody needs.
-/

namespace DemandPaging

/-! ## The capacity of a store -/

namespace Swap

variable {s s' : Swap} {key : SwapKey}

/-- A store has the capacity that it had, and does not come to hold more copies than it may. -/
structure Respects (s s' : Swap) : Prop where
  capacity : s'.capacity = s.capacity
  bounded : s.Bounded → s'.Bounded

theorem Respects.trans {s'' : Swap} (h : s.Respects s') (h' : s'.Respects s'') : s.Respects s'' :=
  ⟨h'.capacity.trans h.capacity, fun hs => h'.bounded (h.bounded hs)⟩

theorem respects_of_store {frame : Bytes} (h : s.store key frame = .ok s') : s.Respects s' := by
  obtain ⟨p, rfl, htakes⟩ := of_store h
  refine ⟨rfl, fun hs c hc => ?_⟩
  rcases htakes with hkey | hroom
  · exact Nat.le_trans (size_insert_le_of_contains hkey p) (hs c hc)
  · exact Nat.le_trans (size_insert_le s key p) (hroom c hc)

theorem respects_of_load {size : Nat} {content : Option Page}
    (h : s.load key size = .ok (content, s')) : s.Respects s' := by
  unfold load at h
  split at h
  · contradiction
  · split at h
    · contradiction
    · split at h <;>
      · cases h
        exact ⟨rfl, fun hs => hs⟩

theorem respects_discard (s : Swap) (owner : ProcessId) : s.Respects (s.discard owner) :=
  ⟨rfl, fun hs c hc => Nat.le_trans (List.length_filter_le ..) (hs c hc)⟩

end Swap

namespace Machine

/-- The store of the later machine respects the capacity as far as that of the earlier one did. -/
def Bounds (m m' : Machine) : Prop := m.kernel.swap.Respects m'.kernel.swap

instance : IsPreorder Machine Bounds where
  refl _ := ⟨rfl, fun h => h⟩
  trans _ _ _ h h' := h.trans h'

theorem tolerant_bounds : Tolerant Bounds where
  noted _ _ := ⟨rfl, fun h => h⟩
  counted _ _ := ⟨rfl, fun h => h⟩
  withFrames _ _ := ⟨rfl, fun h => h⟩
  withMemory _ _ := ⟨rfl, fun h => h⟩
  withTables _ _ := ⟨rfl, fun h => h⟩
  stored _ _ _ _ hstore := Swap.respects_of_store hstore
  loaded _ _ _ _ _ hload := Swap.respects_of_load hload
  discarded m pid := m.kernel.swap.respects_discard pid
  spoiled _ _ := ⟨rfl, fun h => h⟩
  without _ _ := ⟨rfl, fun h => h⟩

/-- The page belongs to a process that lives and may write to it. -/
def Needs (m : Machine) (key : SwapKey) : Prop :=
  ∃ p, m.Registered p ∧ p.pid = key.1 ∧ m.readOnly? p key.2 = some false

/-- The store is the same. -/
def SameSwap (m m' : Machine) : Prop := m'.kernel.swap = m.kernel.swap

instance : IsPreorder Machine SameSwap where
  refl _ := rfl
  trans _ _ _ h h' := h'.trans h

end Machine

/-! ## Teardowns -/

namespace Action

open Machine

variable {m m' : Machine} {p : UserProcess}

/-- Frames are given back without a look at the store. -/
theorem sameSwap_giveBack (p : UserProcess) (owned : List (FrameNumber × PageNumber)) :
    Ensures SameSwap (giveBack p owned) := by
  induction owned with
  | nil => exact ensures_pure _
  | cons x rest ih =>
    have hrelease : Ensures SameSwap (release x.1) :=
      (ensures_onFrames fun _ _ _ _ => rfl).bind fun _ => ensures_modify fun _ => rfl
    have hwake : Ensures SameSwap wakeOne := ensures_onFrames fun _ _ _ _ => rfl
    have htable : Ensures SameSwap (onTable p fun t => (t.invalidate x.2).2) :=
      ensures_modify fun _ => rfl
    exact htable.bind fun _ => hrelease.bind fun _ => hwake.bind fun _ => ih

/-- A teardown ends with the copies of its process, and changes nothing else in the store. -/
theorem swap_of_tearDown (hrun : (tearDown p).run m = .ok () m') :
    m'.kernel.swap = m.kernel.swap.discard p.pid := by
  rw [run_tearDown_eq, EStateM.run_bind] at hrun
  have hsame := sameSwap_giveBack p (m.kernel.frames.ownedBy p.pid) (m.without p.pid)
  cases hback : (giveBack p (m.kernel.frames.ownedBy p.pid)).run (m.without p.pid) with
  | error stop m₁ =>
    rw [hback] at hrun
    contradiction
  | ok u m₁ =>
    rw [hback] at hrun hsame
    cases hrun
    exact congrArg (Swap.discard · p.pid) hsame

end Action

namespace System

open Machine

variable {s s' : System} {loose : List FrameNumber} {broken pids : List ProcessId} {mv : Move}
  {pid : ProcessId}

/-- A move that tears a process down, and does not stop half way, forgets the copies of the process. -/
theorem swap_of_torn (h : s.Sound loose broken) (htorn : s.torn? mv = some pid)
    (hdone : ∀ v, (s.move mv).1 ≠ some (.violated v)) :
    (s.after mv).machine.kernel.swap = s.machine.kernel.swap.discard pid := by
  cases mv with
  | step i =>
    obtain ⟨c, hc, htorn⟩ := Option.bind_eq_some_iff.mp htorn
    obtain ⟨e, hstage, hpid⟩ : ∃ e, c.stage = .undoing e ∧ c.process.pid = pid := by
      unfold Call.torn? at htorn
      split at htorn
      · next e hstage => exact ⟨e, hstage, Option.some.inj htorn⟩
      · contradiction
    have hp := (h.calls c (List.mem_of_getElem? hc)).1
    have hstep := Call.step_of_undoing h.machine hp hstage
    have hdepart := Action.tearDown_spec
      (h.machine.alike (.noted s.machine (.spawnFailed c.process.pid e))) hp
    generalize hr : (Action.tearDown c.process).run
      (s.machine.noted (.spawnFailed c.process.pid e)) = r at hstep hdepart
    cases hdepart with
    | gone =>
      have hswap := Action.swap_of_tearDown hr
      rw [machine_after_step hc, hstep, ← hpid]
      exact hswap
    | stopped => exact absurd (outcome_step hc (congrArg Prod.fst hstep)) (hdone _)
  | release i =>
    obtain ⟨p, hp, rfl⟩ := Option.map_eq_some_iff.mp htorn
    have hdepart := Action.tearDown_spec h.machine (List.mem_of_getElem? hp)
    have hmove : s.move (.release i) = s.perform (Action.tearDown p) := by simp only [move, hp]
    rw [after]
    rw [hmove] at hdone ⊢
    unfold perform at hdone ⊢
    generalize hr : (Action.tearDown p).run s.machine = r at hdepart hdone ⊢
    cases hdepart with
    | gone => exact Action.swap_of_tearDown hr
    | stopped => exact absurd rfl (hdone _)
  | _ => contradiction

/-! ## Histories -/

/-- The system with another store. -/
def withSwap (s : System) (swap : Swap) : System := { s with machine := s.machine.withSwap swap }

/-- The systems that moves lead to if a teardown lets go of the pool before it forgets the copies of its
process, so that other moves may come in between. The list has the processes whose copies are yet to
be forgotten. No teardown stops half way. -/
inductive Leisurely (start : System) : System → List ProcessId → Prop
  | start : Leisurely start start []
  /-- A move that tears nothing down. -/
  | move {s : System} {pids : List ProcessId} (mv : Move) (history : Leisurely start s pids)
      (room : s.HasRoom mv) (torn : s.torn? mv = none) : Leisurely start (s.after mv) pids
  /-- A process leaves the register, and its frames are given back. -/
  | gaveBack {s : System} {pids : List ProcessId} {pid : ProcessId} (mv : Move)
      (history : Leisurely start s pids) (torn : s.torn? mv = some pid)
      (done : ∀ v, (s.move mv).1 ≠ some (.violated v)) :
      Leisurely start ((s.after mv).withSwap s.machine.kernel.swap) (pid :: pids)
  /-- The copies of such a process are forgotten. -/
  | forgot {s : System} {pids : List ProcessId} {pid : ProcessId}
      (history : Leisurely start s pids) (mem : pid ∈ pids) :
      Leisurely start (s.withSwap (s.machine.kernel.swap.discard pid)) (pids.erase pid)

/-- The copies may be forgotten at once, as in a teardown that nobody comes in between. -/
theorem History.leisurely {config : Config} {swap : Swap} {m : Machine}
    (hboot : Machine.boot config swap = .ok m) (h : History HasRoom (ofMachine m) s broken)
    (hnone : broken = []) : Leisurely (ofMachine m) s [] := by
  induction h with
  | start => exact .start
  | @move s broken mv hh hroom ih =>
    obtain ⟨hbroken, rfl⟩ := List.append_eq_nil_iff.mp hnone
    obtain ⟨loose, hs⟩ := hh.sound hboot fun _ _ ha => ha
    cases htorn : s.torn? mv with
    | none => exact .move mv (ih rfl) hroom htorn
    | some pid =>
      have hdone : ∀ v, (s.move mv).1 ≠ some (.violated v) := by
        intro v hv
        simp only [System.broken, hv, htorn, Option.toList_some, reduceCtorEq] at hbroken
      have hforgot := ((ih rfl).gaveBack mv htorn hdone).forgot List.mem_cons_self
      have hsame : ((s.after mv).withSwap s.machine.kernel.swap).withSwap
          (s.machine.kernel.swap.discard pid) = s.after mv := by
        rw [← swap_of_torn hs htorn hdone]
        rfl
      rw [List.erase_cons_head] at hforgot
      exact hsame ▸ hforgot

/-! ## What the store holds -/

variable {swap₀ swap : Swap} {p : UserProcess}

theorem Sound.withSwap (h : s.Sound loose broken)
    (hsame : ∀ q, s.machine.Registered q → ∀ page,
      swap.copy? (q.pid, page) = s.machine.kernel.swap.copy? (q.pid, page)) :
    (s.withSwap swap).Sound loose broken := by
  refine ⟨h.machine.withSwap fun q hq page => ?_, h.calls, h.held, h.answers⟩
  rw [storedContent?, storedContent?, kernel_withSwap, hsame q hq]

theorem Untouched.withSwap (h : s.Untouched)
    (hstored : ∀ key, swap.copy? key ≠ none → ∃ p ∈ s.processes, p.pid = key.1)
    (hwritable : ∀ p ∈ s.processes, ∀ page, s.machine.readOnly? p page = some true →
      swap.copy? (p.pid, page) = none) : (s.withSwap swap).Untouched where
  stored := hstored
  unwritten p hp page hro := ⟨(h.unwritten p hp page hro).1, hwritable p hp page hro⟩
  permitted := h.permitted

/-- What the store of a system is like whose processes in `pids` have yet to lose their copies: only for
these it may hold a copy that nobody needs. -/
structure Frugal (swap₀ : Swap) (s : System) (pids : List ProcessId) : Prop where
  sound : ∃ loose, s.Sound loose []
  marked : s.Marked
  untouched : s.Untouched
  dead : ∀ pid ∈ pids, s.machine.process? pid = none ∧ ∃ p ∈ s.processes, p.pid = pid
  needed : ∀ key, s.machine.kernel.swap.copy? key ≠ none → key.1 ∉ pids → s.machine.Needs key
  respects : swap₀.Respects s.machine.kernel.swap

/-- A page that is dirty may be written to. -/
theorem Untouched.needs (h : s.Untouched) (hs : s.Sound loose broken) (hp : s.machine.Registered p)
    {page : PageNumber} (hdirty : s.machine.Dirty p page) :
    s.machine.Needs (p.pid, page) := by
  obtain ⟨e, he, hd⟩ := id hdirty
  refine ⟨p, hp, rfl, ?_⟩
  rw [Machine.readOnly?, he, Option.map_some, Option.some.injEq, ← Bool.not_eq_true]
  intro hro
  refine (h.unwritten p (hs.machine.census.mem hp) page ?_).1 hdirty
  rw [Machine.readOnly?, he, Option.map_some, hro]

/-- A page of a live process is needed as before if the process still lives. -/
theorem Turn.needs (ht : Turn s mv s') (h : s.Sound loose broken) {key : SwapKey}
    (hlives : ∀ p, s.machine.Registered p → p.pid = key.1 → s'.machine.Registered p)
    (hneeds : s.machine.Needs key) : s'.machine.Needs key := by
  obtain ⟨p, hp, hpid, hro⟩ := hneeds
  exact ⟨p, hlives p hp hpid, hpid, (ht.readOnly? h (h.machine.census.mem hp) _).trans hro⟩

namespace Frugal

/-- A move that tears nothing down saves only what is needed. -/
theorem after (h : s.Frugal swap₀ pids) (hroom : s.HasRoom mv) (htorn : s.torn? mv = none) :
    (s.after mv).Frugal swap₀ pids := by
  obtain ⟨loose, hs⟩ := h.sound
  have hturn := turn hs hroom
  have hbroken : s.broken mv = [] := by
    unfold System.broken
    rw [htorn]
    split <;> rfl
  refine ⟨?_, hturn.marked hs h.marked, ⟨hturn.stored hs h.untouched, hturn.unwritten hs h.untouched,
    h.untouched.permitted_after hs hroom⟩, fun pid hpid => ?_, fun key hcopy hkey => ?_, ?_⟩
  · have hsound := (moved hs hroom).sound
    rwa [hbroken] at hsound
  · obtain ⟨hdead, p, hp, rfl⟩ := h.dead pid hpid
    exact ⟨(hturn.fades hs hp hdead).dead, p, hturn.mem_processes hp, rfl⟩
  · cases id hturn with
    | went processes torn orderly =>
      refine hturn.needs hs (fun p hp _ => (orderly.registry _).trans hp) ?_
      rcases orderly.copies key hcopy with hold | ⟨q, hq, hqp, hdirty⟩
      · exact h.needed key hold hkey
      · have hneeds := h.untouched.needs hs hq hdirty
        rwa [hqp] at hneeds
    | tore processes mem torn orderly cleared =>
      rw [torn] at htorn
      contradiction
    | joined processes torn machine pid index room layout table =>
      rw [machine] at hcopy
      refine hturn.needs hs (fun p hp _ => ?_) (h.needed key hcopy hkey)
      have hne := hs.machine.census.pid_ne_nextPid room (hs.machine.census.mem hp)
      rw [Registered, machine, process?_joined, pid, if_neg hne]
      exact hp
  · exact h.respects.trans <|
      related_after tolerant_bounds s mv fun _ _ _ _ _ _ => ⟨rfl, fun hb => hb⟩

/-- A process that is torn down may leave copies behind, which are yet to be forgotten. -/
theorem gaveBack (h : s.Frugal swap₀ pids) (htorn : s.torn? mv = some pid)
    (hdone : ∀ v, (s.move mv).1 ≠ some (.violated v)) :
    ((s.after mv).withSwap s.machine.kernel.swap).Frugal swap₀ (pid :: pids) := by
  obtain ⟨loose, hs⟩ := h.sound
  have hroom : s.HasRoom mv := by cases mv <;> trivial
  have hturn := turn hs hroom
  obtain ⟨p, hp, rfl, horderly, -⟩ := hturn.of_torn htorn
  have hregistry : ∀ k, (s.after mv).machine.process? k =
      if k = p.pid then none else s.machine.process? k := fun k =>
    (horderly.registry k).trans (process?_without ..)
  have hprocesses : (s.after mv).processes = s.processes := by
    cases hturn with
    | went processes | tore processes => exact processes
    | joined processes torn =>
      rw [torn] at htorn
      contradiction
  refine ⟨?_, hturn.marked hs h.marked, ?_, fun pid hpid => ?_, fun key hcopy hkey => ?_, h.respects⟩
  · -- the copies that the store still has are those of the process that went
    have hbroken : s.broken mv = [] := by
      unfold System.broken
      split
      · next v hv => exact absurd hv (hdone v)
      · rfl
    obtain ⟨loose', hs'⟩ := (moved hs hroom).sound
    rw [hbroken] at hs'
    refine ⟨loose', hs'.withSwap fun q hq page => ?_⟩
    have hne : q.pid ≠ p.pid := by
      intro heq
      rw [Registered, hregistry, if_pos heq] at hq
      contradiction
    rw [swap_of_torn hs htorn hdone, Swap.copy?_discard, if_neg hne]
  · have huntouched : (s.after mv).Untouched := ⟨hturn.stored hs h.untouched,
      hturn.unwritten hs h.untouched, h.untouched.permitted_after hs hroom⟩
    refine huntouched.withSwap (hprocesses ▸ h.untouched.stored) fun q hq page hro => ?_
    rw [hprocesses] at hq
    exact (h.untouched.unwritten q hq page ((hturn.readOnly? hs hq page).symm.trans hro)).2
  · rcases List.mem_cons.mp hpid with rfl | hpid
    · exact ⟨(hregistry p.pid).trans (if_pos rfl), p, hprocesses ▸ hp, rfl⟩
    · obtain ⟨hdead, q, hq, rfl⟩ := h.dead pid hpid
      exact ⟨(hturn.fades hs hq hdead).dead, q, hprocesses ▸ hq, rfl⟩
  · rw [List.mem_cons, not_or] at hkey
    refine hturn.needs hs (fun q hq hqp => ?_) (h.needed key hcopy hkey.2)
    rw [Registered, hregistry, if_neg (hqp ▸ hkey.1)]
    exact hq

/-- The copies of a process that was torn down go away, and no others. -/
theorem forgot (h : s.Frugal swap₀ pids) (hmem : pid ∈ pids) :
    (s.withSwap (s.machine.kernel.swap.discard pid)).Frugal swap₀ (pids.erase pid) := by
  obtain ⟨loose, hs⟩ := h.sound
  obtain ⟨hdead, -⟩ := h.dead pid hmem
  have hcopies : ∀ key, (s.machine.kernel.swap.discard pid).copy? key ≠ none →
      key.1 ≠ pid ∧ s.machine.kernel.swap.copy? key ≠ none := by
    intro key hcopy
    rw [Swap.copy?_discard] at hcopy
    split at hcopy
    · contradiction
    · next hne => exact ⟨hne, hcopy⟩
  refine ⟨⟨loose, hs.withSwap fun q hq page => ?_⟩, h.marked, h.untouched.withSwap
    (fun key hcopy => h.untouched.stored key (hcopies key hcopy).2) fun q hq page hro => ?_,
    fun k hk => h.dead k (List.mem_of_mem_erase hk), fun key hcopy hkey => ?_, ?_⟩
  · have hne : q.pid ≠ pid := by
      rintro rfl
      rw [Registered, hdead] at hq
      contradiction
    rw [Swap.copy?_discard, if_neg hne]
  · rw [Swap.copy?_discard, (h.untouched.unwritten q hq page hro).2, ite_self]
  · obtain ⟨hne, hold⟩ := hcopies key hcopy
    exact h.needed key hold fun hin => hkey ((List.mem_erase_of_ne hne).mpr hin)
  · exact h.respects.trans (s.machine.kernel.swap.respects_discard pid)

end Frugal

/-- **Stores stay frugal**, whatever comes in between the two parts of a teardown. -/
theorem Leisurely.frugal {config : Config} {m : Machine}
    (hboot : Machine.boot config swap₀ = .ok m) (hempty : ∀ key, swap₀.copy? key = none)
    (h : Leisurely (ofMachine m) s pids) : s.Frugal swap₀ pids := by
  induction h with
  | start =>
    have hsound := sound_boot hboot
    obtain ⟨-, rfl⟩ := eq_started_of_boot hboot
    exact ⟨⟨[], hsound⟩, fun _ hp => absurd hp List.not_mem_nil,
      ⟨fun key hcopy => absurd (hempty key) hcopy, fun _ hp => absurd hp List.not_mem_nil,
        fun _ hc => absurd hc List.not_mem_nil⟩, fun _ hpid => absurd hpid List.not_mem_nil,
      fun key hcopy => absurd (hempty key) hcopy, ⟨rfl, fun hb => hb⟩⟩
  | move mv _ room torn ih => exact ih.after room torn
  | gaveBack mv _ torn done ih => exact ih.gaveBack torn done
  | forgot _ mem ih => exact ih.forgot mem

/-- What the slots of a store are like: whole pages of live processes that may write to them, or of
processes in `pids`, and no more of them than the store may hold. -/
structure Stores (s : System) (capacity : Option Nat) (pids : List ProcessId) : Prop where
  needed : ∀ key page, (key, page) ∈ s.machine.kernel.swap.slots → key.1 ∉ pids →
    ∃ p, s.machine.Registered p ∧ p.pid = key.1 ∧ p.layout.contains key.2 = true ∧
      s.machine.readOnly? p key.2 = some false
  whole : ∀ key page, (key, page) ∈ s.machine.kernel.swap.slots → page.bytes.length = pageSize
  size_le : ∀ c, capacity = some c → s.machine.kernel.swap.size ≤ c
  emptied : (∀ p ∈ s.processes, ¬ s.machine.Registered p) → pids = [] →
    s.machine.kernel.swap.isEmpty = true

theorem Frugal.stores {capacity : Option Nat} (h : s.Frugal (.empty capacity) pids) :
    s.Stores capacity pids := by
  obtain ⟨loose, hs⟩ := h.sound
  have hneeded : ∀ key page, (key, page) ∈ s.machine.kernel.swap.slots → key.1 ∉ pids →
      s.machine.Needs key :=
    fun key page hslot => h.needed key (Swap.copy?_ne_none_of_mem hslot)
  refine ⟨fun key page hslot hkey => ?_, fun _ page _ => page.length_bytes, fun c hc => ?_,
    fun hnobody hnone => ?_⟩
  · obtain ⟨p, hp, hpid, hro⟩ := hneeded key page hslot hkey
    refine ⟨p, hp, hpid, ?_, hro⟩
    rw [h.marked p (hs.machine.census.mem hp), Option.map_eq_some_iff] at hro
    obtain ⟨source, hsource, -⟩ := hro
    exact (Option.ite_none_right_eq_some.mp hsource).1
  · exact h.respects.bounded (fun _ _ => Nat.zero_le _) c (h.respects.capacity.trans hc)
  · subst hnone
    refine List.isEmpty_iff.mpr (List.eq_nil_iff_forall_not_mem.mpr fun ⟨key, page⟩ hslot => ?_)
    obtain ⟨p, hp, -⟩ := hneeded key page hslot List.not_mem_nil
    exact hnobody p (hs.machine.census.mem hp) hp

/-- **The store holds only what can still be needed.** Let moves lead from a machine that has just
started, with a store without copies, to any system, and let no teardown stop half way. Every slot is
a whole page of a process that lives, which lies in its address space and may be written to, and the
slots are no more than the store may hold. Once no process lives, the store is empty. It is the same
if others come in between the two parts of a teardown, but for the copies that are yet to be
forgotten. -/
theorem stores_only_needed {config : Config} {capacity : Option Nat} {m : Machine}
    (hboot : Machine.boot config (.empty capacity) = .ok m) :
    (∀ s, History HasRoom (ofMachine m) s [] → s.Stores capacity []) ∧
    ∀ s pids, Leisurely (ofMachine m) s pids → s.Stores capacity pids :=
  have hstores : ∀ s pids, Leisurely (ofMachine m) s pids → s.Stores capacity pids :=
    fun _ _ h => (h.frugal hboot fun _ => rfl).stores
  ⟨fun s h => hstores s [] (h.leisurely hboot rfl), hstores⟩

/-- A system with one frame and room for one copy, in which a page was written to and had to give the
frame to another page. -/
def swapped : System := (ofMachine (started ⟨1, 1, true⟩ (.empty (some 1)))).run
  [.spawn (Image.ofMemory .empty).toExecutable [] .demand, .step 0, .request 0 (.write .zero [7]),
    .step 0, .step 0, .step 0, .step 0, .request 0 (.pin ⟨1⟩ .read), .step 0, .step 0, .drop 0]

/-- The copy of the page is needed by its process, and goes away with it. -/
theorem stores_only_needed_swapped : ∃ p,
    swapped.machine.kernel.swap.slots.map Prod.fst = [(p.pid, ⟨0⟩)] ∧
    swapped.machine.Registered p ∧ swapped.machine.readOnly? p ⟨0⟩ = some false ∧
    swapped.machine.kernel.swap.size ≤ 1 ∧
    (swapped.run [.release 0]).machine.kernel.swap.isEmpty = true := by
  have hhistory : History HasRoom (ofMachine (started ⟨1, 1, true⟩ (.empty (some 1)))) swapped [] :=
    History.start.run (by decide +kernel)
  have hgone : History HasRoom (ofMachine (started ⟨1, 1, true⟩ (.empty (some 1))))
      (swapped.run [.release 0]) [] := hhistory.run (by decide +kernel)
  have hkeys : swapped.machine.kernel.swap.slots.map Prod.fst = [(ProcessId.ofNat 1, ⟨0⟩)] := by
    decide +kernel
  have hdead : (swapped.run [.release 0]).processes.all (fun p =>
      ((swapped.run [.release 0]).machine.process? p.pid).isNone) = true := by decide +kernel
  obtain ⟨⟨key, page⟩, hslot, hkey⟩ := List.mem_map.mp (hkeys ▸ List.mem_singleton_self _ :
    (ProcessId.ofNat 1, ⟨0⟩) ∈ swapped.machine.kernel.swap.slots.map Prod.fst)
  have hboot : Machine.boot ⟨1, 1, true⟩ (.empty (some 1)) =
      .ok (started ⟨1, 1, true⟩ (.empty (some 1))) := rfl
  obtain ⟨hall, -⟩ := stores_only_needed hboot
  obtain ⟨p, hp, hpid, -, hro⟩ := (hall swapped hhistory).needed key page hslot List.not_mem_nil
  subst hkey
  have hslots : swapped.machine.kernel.swap.slots.map Prod.fst = [(p.pid, ⟨0⟩)] := by
    rw [hkeys, hpid]
  have hempty := (hall _ hgone).emptied (fun q hq hreg => by
    rw [Registered, Option.isNone_iff_eq_none.mp (List.all_eq_true.mp hdead q hq)] at hreg
    exact Option.some_ne_none q hreg.symm) rfl
  exact ⟨p, hslots, hp, hro, (hall swapped hhistory).size_le 1 rfl, hempty⟩

end System

end DemandPaging
