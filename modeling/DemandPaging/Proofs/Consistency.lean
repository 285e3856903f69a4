import DemandPaging.Kernel.Check
import DemandPaging.Proofs.Invariant
import DemandPaging.Proofs.PageTableLaws

/-!
# Directory and page tables agree

In every system that moves lead to, directory and page tables are inverse to each other, and a frame
whose owner is not registered belongs to a process whose teardown stopped half way. So the check of
the machine, which looks for the first disagreement, finds nothing at all or such a frame.

The check is treated from the inside out: the frame table, the records of the directory, the
mappings of the page tables.
-/

namespace DemandPaging

open Machine

/-! ## The check of the frame table -/

namespace FrameTable

variable {O : Type} {t : FrameTable O}

/-- The record of one frame agrees with the free list. -/
theorem Valid.contains_eq_isFree (ht : t.Valid) {f : FrameNumber} {i : FrameInfo O}
    (hi : t.info? f = some i) : t.free.contains f = i.isFree := by
  rw [Bool.eq_iff_iff, ht.listed, ht.mem_stack, FrameInfo.isFree, Option.isNone_iff_eq_none]
  constructor
  · rintro ⟨j, hj, hnone⟩
    rw [hi, Option.some.injEq] at hj
    rw [hj]
    exact hnone
  · exact fun hnone => ⟨i, hi, hnone⟩

theorem firstDisagreement_eq_none (ht : t.Valid) {fs : List (FrameNumber × FrameInfo O)}
    (hfs : ∀ f i, (f, i) ∈ fs → t.info? f = some i) : firstDisagreement t.free fs = none := by
  induction fs with
  | nil => rfl
  | cons x fs ih =>
    obtain ⟨f, i⟩ := x
    have hi := hfs f i List.mem_cons_self
    have hcontains := ht.contains_eq_isFree hi
    have hunpinned : (i.isFree && i.isPinned) = false := by
      cases ho : i.owner with
      | some o => simp only [FrameInfo.isFree, ho, Option.isNone_some, Bool.false_and]
      | none =>
        have hpins := ht.unpinned f i hi ho
        simp only [FrameInfo.isPinned, hpins, Nat.lt_irrefl, decide_false, Bool.and_false]
    simp only [firstDisagreement, hcontains, Bool.not_and_self, Bool.and_not_self, hunpinned,
      Bool.false_eq_true, if_false]
    exact ih fun g j hmem => hfs g j (List.mem_cons_of_mem _ hmem)

/-- As many frames are on the free list as there are without owner. -/
theorem Valid.countP_isFree (ht : t.Valid) :
    t.directory.toList.countP (fun x => x.2.isFree) = t.free.size := by
  have hnodup : ((t.directory.toList.filter fun x => x.2.isFree).map Prod.fst).Nodup :=
    List.pairwise_map.mpr ((Directory.pairwise_toList ht.size_le).filter _)
  have hperm : ((t.directory.toList.filter fun x => x.2.isFree).map Prod.fst).Perm
      t.free.stack := by
    rw [List.perm_ext_iff_of_nodup hnodup ht.nodup]
    intro f
    simp only [ht.mem_stack, List.mem_map, List.mem_filter, Prod.exists,
      Directory.mem_toList ht.size_le, FrameInfo.isFree, Option.isNone_iff_eq_none]
    constructor
    · rintro ⟨g, i, ⟨hi, hnone⟩, rfl⟩
      exact ⟨i, hi, hnone⟩
    · rintro ⟨i, hi, hnone⟩
      exact ⟨f, i, ⟨hi, hnone⟩, rfl⟩
  rw [List.countP_eq_length_filter, ← List.length_map Prod.fst, hperm.length_eq]
  rfl

/-- Frames with an owner. -/
def ownedCount (t : FrameTable O) : Nat := t.directory.toList.countP fun x => !x.2.isFree

/-- A frame is on the free list or owned. -/
theorem Valid.freeCount_add_ownedCount (ht : t.Valid) : t.freeCount + t.ownedCount = t.frameCount := by
  have hsize : t.directory.toList.length = t.frameCount := by
    simp [Directory.toList, frameCount, Directory.size]
  rw [freeCount, ← ht.countP_isFree, ownedCount, ← hsize,
    List.length_eq_countP_add_countP fun x => x.2.isFree]
  simp only [Bool.not_eq_true, Bool.decide_eq_false]

/-- The check of a valid pool passes. -/
theorem Valid.check (ht : t.Valid) : t.check = .ok () := by
  have hfs : ∀ f i, (f, i) ∈ t.directory.toList → t.info? f = some i :=
    fun f i hmem => (Directory.mem_toList ht.size_le).mp hmem
  simp only [FrameTable.check, firstDisagreement_eq_none ht hfs, ht.countP_isFree, if_true]

end FrameTable

/-! ## The check of the mappings -/

namespace Machine

variable {m : Machine} {l : Ledger}

theorem Census.size_table_le (h : m.Census l.processes) (p : UserProcess) :
    (m.table p).size ≤ wordBound := by
  rw [table]
  cases ht : m.tables[p.table.index]? with
  | none => exact Nat.zero_le _
  | some t =>
    refine h.fits _ ?_
    rw [sizes, Array.mem_map]
    exact ⟨t, Array.mem_of_getElem? ht, rfl⟩

/-- Every record leads to the page table that it came from, or to a process that is gone. -/
theorem firstStaleRecord_cases (h : m.Sound l) (hloose : l.loose = [])
    {fs : List (FrameNumber × FrameInfo ProcessId)}
    (hfs : ∀ f i, (f, i) ∈ fs → m.frameInfo? f = some i) :
    m.firstStaleRecord fs = none ∨ ∃ f i pid, m.frameInfo? f = some i ∧ i.owner = some pid ∧
      m.process? pid = none ∧ m.firstStaleRecord fs = some (.unknownOwner f pid) := by
  induction fs with
  | nil => exact Or.inl rfl
  | cons x fs ih =>
    obtain ⟨f, i⟩ := x
    have hi := hfs f i List.mem_cons_self
    have hrest := ih fun g j hmem => hfs g j (List.mem_cons_of_mem _ hmem)
    cases ho : i.owner with
    | none =>
      simp only [firstStaleRecord, ho]
      exact hrest
    | some pid =>
      cases hp : m.process? pid with
      | none =>
        simp only [firstStaleRecord, ho, hp]
        exact Or.inr ⟨f, i, pid, hi, ho, hp, rfl⟩
      | some p =>
        obtain ⟨rfl, -⟩ := h.census.registered pid p hp
        have hmapped := h.agreement.recorded f i p hi ho hp (hloose ▸ List.not_mem_nil)
        simp only [firstStaleRecord, ho, hp, hmapped, if_true]
        exact hrest

theorem firstStaleMappingOf_eq_none (h : m.Sound l) {p : UserProcess} (hp : m.Registered p)
    {mappings : List (PageNumber × FrameNumber)}
    (hall : ∀ page f, (page, f) ∈ mappings → (m.table p).translate? page = some f) :
    m.firstStaleMappingOf p.pid mappings = .ok none := by
  induction mappings with
  | nil => rfl
  | cons x mappings ih =>
    obtain ⟨page, f⟩ := x
    obtain ⟨i, hi, ho, hpage⟩ := h.agreement.mapped p page f hp (hall page f List.mem_cons_self)
    simp only [firstStaleMappingOf, hi, ho, hpage, true_and, if_true]
    exact ih fun q g hmem => hall q g (List.mem_cons_of_mem _ hmem)

theorem firstStaleMapping_eq_none (h : m.Sound l) {ps : List (ProcessId × UserProcess)}
    (hps : ∀ pid p, (pid, p) ∈ ps → m.process? pid = some p) :
    m.firstStaleMapping ps = .ok none := by
  induction ps with
  | nil => rfl
  | cons x ps ih =>
    obtain ⟨pid, p⟩ := x
    have hp := hps pid p List.mem_cons_self
    obtain ⟨rfl, -⟩ := h.census.registered pid p hp
    have hfirst := firstStaleMappingOf_eq_none h hp fun page f hmem =>
      (PageTable.mem_resident_iff (h.census.size_table_le p)).mp hmem
    have hrest := ih fun k q hmem => hps k q (List.mem_cons_of_mem _ hmem)
    simp only [firstStaleMapping, hfirst, bind, Except.bind]
    exact hrest

/-- What the check of a sound machine can find is a frame of a process that is gone. -/
theorem check_cases (h : m.Sound l) (hloose : l.loose = []) :
    m.check = .ok none ∨ ∃ f i pid, m.frameInfo? f = some i ∧ i.owner = some pid ∧
      m.process? pid = none ∧ m.check = .ok (some (.unknownOwner f pid)) := by
  have hfs : ∀ f i, (f, i) ∈ m.kernel.frames.directory.toList → m.frameInfo? f = some i :=
    fun f i hmem => (Directory.mem_toList h.pool.size_le).mp hmem
  have hps : ∀ pid p, (pid, p) ∈ m.kernel.registry.toList → m.process? pid = some p :=
    fun pid p hmem => Registry.find?_of_mem h.census.nodup_keys hmem
  rcases firstStaleRecord_cases h hloose hfs with hnone | ⟨f, i, pid, hi, ho, hp, hstale⟩
  · have hcheck : m.check = .ok none := by
      simp only [Machine.check, h.pool.check, hnone, firstStaleMapping_eq_none h hps]
    exact Or.inl hcheck
  · have hcheck : m.check = .ok (some (.unknownOwner f pid)) := by
      simp only [Machine.check, h.pool.check, hstale]
    exact Or.inr ⟨f, i, pid, hi, ho, hp, hcheck⟩

/-- The check passes if no pin is loose and no process is broken. -/
theorem Sound.check (h : m.Sound l) (hloose : l.loose = []) (hbroken : l.broken = []) :
    m.check = .ok none := by
  refine (check_cases h hloose).resolve_right ?_
  rintro ⟨f, i, pid, hi, ho, hp, -⟩
  refine absurd hp ((h.agreement.owned f i pid hi ho).resolve_right ?_)
  rw [hbroken]
  exact List.not_mem_nil

end Machine

/-! ## All reachable systems -/

namespace System

variable {config : Config} {swap : Swap} {m : Machine}

/-- **Directory and page tables are inverse to each other.** In every system that moves lead to from
a machine that has just started, the free list agrees with the directory, a page of a process that
lives is mapped to a frame exactly if the directory records it for that frame, and every frame of a
process that is gone belongs to one whose teardown stopped half way. The check of the machine passes
if no teardown stopped, and otherwise it can only find a frame whose owner is unknown. -/
theorem directory_agrees (hboot : Machine.boot config swap = .ok m) {s : System}
    {broken : List ProcessId} (hs : History Trusts (ofMachine m) s broken) :
    s.machine.kernel.frames.check = .ok () ∧
    (∀ p page f, s.machine.Registered p →
      ((s.machine.table p).translate? page = some f ↔
        ∃ i, s.machine.frameInfo? f = some i ∧ i.owner = some p.pid ∧ i.page = page)) ∧
    (∀ f i pid, s.machine.frameInfo? f = some i → i.owner = some pid →
      s.machine.process? pid = none → pid ∈ broken) ∧
    (broken = [] → s.machine.check = .ok none) ∧
    (s.machine.check = .ok none ∨
      ∃ f pid, s.machine.check = .ok (some (.unknownOwner f pid))) := by
  have hsound := (hs.answers hboot).machine
  have howned : ∀ f i pid, s.machine.frameInfo? f = some i → i.owner = some pid →
      s.machine.process? pid = none → pid ∈ broken :=
    fun f i pid hi ho hp => (hsound.agreement.owned f i pid hi ho).resolve_left (· hp)
  refine ⟨hsound.pool.check, fun p page f hp => ⟨hsound.agreement.mapped p page f hp, ?_⟩, howned,
    fun hbroken => ?_, ?_⟩
  · rintro ⟨i, hi, ho, rfl⟩
    exact hsound.agreement.recorded f i p hi ho hp List.not_mem_nil
  · refine (check_cases hsound rfl).resolve_right ?_
    rintro ⟨f, i, pid, hi, ho, hp, -⟩
    have hmem := howned f i pid hi ho hp
    rw [hbroken] at hmem
    exact absurd hmem List.not_mem_nil
  · refine (check_cases hsound rfl).imp_right ?_
    rintro ⟨f, i, pid, -, -, -, hcheck⟩
    exact ⟨f, pid, hcheck⟩

/-- The only process was torn down while someone kept its page pinned. -/
def halfTornDown : System := holding.after (.release 0)

/-- The frame that was not given back is all that the check can find. -/
theorem directory_agrees_halfTornDown :
    halfTornDown.machine.kernel.frames.check = .ok () ∧
    (∀ f i pid, halfTornDown.machine.frameInfo? f = some i → i.owner = some pid →
      halfTornDown.machine.process? pid = none → pid ∈ [ProcessId.ofNat 1]) ∧
    (halfTornDown.machine.check = .ok none ∨
      ∃ f pid, halfTornDown.machine.check = .ok (some (.unknownOwner f pid))) := by
  have hhistory : History Trusts (ofMachine (fresh 1)) halfTornDown [ProcessId.ofNat 1] :=
    .move (.release 0) history_holding (trusts_of_ne nofun)
  obtain ⟨hframes, -, howned, -, hcheck⟩ :=
    @directory_agrees ⟨1, 1, true⟩ (.empty none) (fresh 1) rfl halfTornDown _ hhistory
  exact ⟨hframes, howned, hcheck⟩

end System

end DemandPaging
