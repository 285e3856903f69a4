import Mathlib.Data.List.Pairwise
import DemandPaging.Proofs.Accesses
import DemandPaging.Proofs.Invariant
import DemandPaging.Proofs.Likeness

/-!
# First in, first out

In a run that does nothing but create processes and fault pages in, the frames are taken in turn: the
access number `k`, counted from zero, gets frame `k mod n` of `n` frames, and so takes it from the page
of access number `k - n`. It makes no difference whether a page that was just brought in counts as
referenced: if it does, the clock finds all frames referenced, or those in front of the hand that are
not, and its ring stays in order (`Clock.InOrder`).
-/

namespace DemandPaging

open Machine

/-! ## Runs that only fault pages in -/

/-- Something to be done: create a process, or make a request for a process that is named by its
number. -/
inductive Errand where
  | spawn (image : Executable)
  | request (process : Nat) (r : Request)

/-- A run so far: the machine, the processes that were created, and the pages that were accessed, in the
order of the accesses. -/
structure FaultRun where
  machine : Machine
  processes : List UserProcess
  visits : List (UserProcess × PageNumber)

/-- The process that was created. -/
def Progress.spawned? : Progress → Option UserProcess
  | .finished (.returned (.spawned p)) => some p
  | _ => none

namespace FaultRun

/-- An errand: a process whose pages are loaded on demand and which has no arguments is created, or
refused, or a request that needs one page, which is not resident, succeeds. -/
inductive Next (s : FaultRun) : Errand → FaultRun → Prop
  | spawn {image : Executable} {pr : Progress} {m' : Machine}
      (run : s.machine.spawn image [] .demand = (pr, m')) :
      Next s (.spawn image) ⟨m', s.processes ++ pr.spawned?.toList, s.visits⟩
  | request {i : Nat} {r : Request} {p : UserProcess} {page : PageNumber} {a : Answer} {m' : Machine}
      (process : s.processes[i]? = some p) (single : r.Single p page)
      (absent : (s.machine.table p).translate? page = none)
      (run : (r.toCall p).run s.machine = (.finished (.returned a), m')) :
      Next s (.request i r) ⟨m', s.processes, s.visits ++ [(p, page)]⟩

/-- The runs that start with the machine `m` and do the given errands. -/
inductive From (m : Machine) : List Errand → FaultRun → Prop
  | start : From m [] ⟨m, [], []⟩
  | next {errands : List Errand} {errand : Errand} {s s' : FaultRun} (run : From m errands s)
      (step : s.Next errand s') : From m (errands ++ [errand]) s'

end FaultRun

/-! ## Creations -/

theorem ArgumentBlock.steps_nil (table : VirtualAddress) : steps table [] = [] := by
  rw [steps, List.length_nil, Nat.zero_mul, VirtualAddress.add?_zero]
  rfl

theorem Action.mode_of_spawn {m m' : Machine} {image : Executable} {args : List Bytes}
    {mode : PagingMode} {c : Call} (h : (spawn image args mode).run m = .ok c m') :
    c.process.mode = mode := by
  simp only [spawn, run_bind_eq_ok] at h
  obtain ⟨m₁, m₂, -, h⟩ := h
  split at h
  · cases h
  · split at h
    · cases h
    · split at h
      · cases h
      · simp only [run_bind_eq_ok, register] at h
        obtain ⟨p, m₃, ⟨pid, m₄, -, h⟩, hc⟩ := h
        cases hc
        split at h
        · cases h
        · split at h
          · cases h
          · simp only [run_bind_eq_ok] at h
            obtain ⟨m₅, m₆, -, u, m₇, -, h⟩ := h
            cases h
            rfl

/-- What is known of a new process that waits for its pages to be asked for, and of its page table. -/
structure Machine.Newborn (m : Machine) (image : Executable) (p : UserProcess) (t : PageTable) :
    Prop where
  pid : p.pid = m.kernel.nextPid
  index : p.table.index = m.tables.size
  image_eq : p.image = image
  absent : ∀ page e, t.get? page = some e → e.frame? = none
  layout : Layout.ofSections image.sections m.kernel.config.stackPages = .ok p.layout
  table : UserProcess.initialTable image p.layout = .ok t
  argv : p.layout.stackTop? = some p.argv
  argc : p.argc = 0
  mode : p.mode = .demand

/-- **A process on demand** without arguments is created at once, or refused. -/
theorem Machine.spawn_demand (m : Machine) (image : Executable) :
    (∃ stop, Action.Refused m image [] stop ∧
      m.spawn image [] .demand = (.finished (.ofStop stop), m)) ∨
    ∃ p t ev ev', m.Newborn image p t ∧ m.spawn image [] .demand =
      (.finished (.returned (.spawned p)), ((m.joined p t).noted ev).noted ev') := by
  have hbirth := Action.spawn_spec m image [] .demand
  cases hrun : (Action.spawn image [] .demand).run m with
  | error stop m' =>
    rw [hrun] at hbirth
    cases hbirth with
    | refused cause => exact .inl ⟨stop, cause, by rw [Machine.spawn, hrun]⟩
  | ok c m' =>
    have hmode := Action.mode_of_spawn hrun
    rw [hrun] at hbirth
    cases hbirth with
    | @begun p t pid index himage fits absent layout table argv argc size =>
      have hstep : Call.step ⟨p, .spawn, [.load .demand], .seeking⟩ (m.joined p t) =
          (.finished (.returned (.spawned p)), ((m.joined p t).noted
            (.leftToDemand p.pid p.numPages)).noted
            (.spawned p.pid p.numPages p.mode p.entryPoint p.argv)) := by
        have hsp : p.stackPointer? = some p.argv := argv
        refine Call.step_of_run ?_
        simp only [Call.proceed, Call.begin, Call.beginLoad, Call.endTask, Call.conclude, hsp,
          EStateM.run_bind, Action.run_note, EStateM.run_pure]
      refine .inr ⟨p, t, .leftToDemand p.pid p.numPages,
        .spawned p.pid p.numPages p.mode p.entryPoint p.argv,
        ⟨pid, index, himage, absent, layout, table, argv, argc, hmode⟩, ?_⟩
      rw [Machine.spawn, hrun]
      simp only [ArgumentBlock.steps_nil, List.map_nil]
      exact Call.runFor_of_finished hstep _

/-! ## The order of the frames -/

namespace Machine

variable {n : Nat} {visits : List (UserProcess × PageNumber)} {m m' : Machine} {p : UserProcess}
  {page : PageNumber} {f : FrameNumber}

/-- The accesses so far took the `n` frames in turn. The next one takes frame `visits.length mod n`, which
is the next free one, or the first of the ring. -/
structure InTurn (n : Nat) (visits : List (UserProcess × PageNumber)) (m : Machine) : Prop where
  pos : 0 < n
  bound : n ≤ wordBound
  size : m.kernel.frames.directory.size = n
  stack : m.kernel.frames.free.stack = ((List.range n).drop visits.length).map FrameNumber.ofNat
  hand : m.kernel.frames.clock.hand = if visits.length < n then 0 else visits.length % n
  used : ∀ f : FrameNumber, f.toNat < visits.length → f.toNat < n →
    m.kernel.frames.directory.Evictable f
  marks : visits.length < n → ∀ f : FrameNumber, f.toNat < visits.length →
    m.kernel.frames.directory.referenced f = m.kernel.config.referenceOnInstall
  order : n ≤ visits.length → Clock.InOrder m.kernel.config.referenceOnInstall
    (Clock.ring m.kernel.frames.clock.hand m.kernel.frames.directory)
  resident : ∀ (q : UserProcess) (page : PageNumber) (f : FrameNumber),
    (m.table q).translate? page = some f ↔ ∃ k r, visits[k]? = some (r, page) ∧
      visits.length ≤ k + n ∧ r.table.index = q.table.index ∧ f = .ofNat (k % n)
  faults : m.kernel.stats.faults = visits.length
  evictions : m.kernel.stats.evictions = visits.length - n

namespace InTurn

variable (h : m.InTurn n visits)
include h

/-- While frames are free, the next one is handed out. -/
theorem stack_of_lt (hlt : visits.length < n) : m.kernel.frames.free.stack =
    .ofNat (visits.length % n) ::
      ((List.range n).drop (visits.length + 1)).map FrameNumber.ofNat := by
  rw [h.stack, List.drop_eq_getElem_cons (by simpa using hlt), List.map_cons, List.getElem_range,
    Nat.mod_eq_of_lt hlt]

theorem stack_eq_nil_iff : m.kernel.frames.free.stack = [] ↔ n ≤ visits.length := by
  rw [h.stack, List.map_eq_nil_iff, List.drop_eq_nil_iff, List.length_range]

/-- When no frame is free, the first frame of the ring is the victim. -/
theorem exists_ring (hle : n ≤ visits.length) : ∃ mark rest,
    Clock.ring m.kernel.frames.clock.hand m.kernel.frames.directory =
      (.ofNat (visits.length % n), mark) :: rest := by
  obtain ⟨k, rfl⟩ : ∃ k, n = k + 1 := ⟨n - 1, by have := h.pos; omega⟩
  rw [Clock.ring, h.size, h.hand, if_neg (Nat.not_lt.mpr hle), Clock.turn, List.range_succ_eq_map,
    List.map_cons, List.map_cons, Nat.add_zero, Nat.mod_mod]
  exact ⟨_, _, rfl⟩

theorem evictable (hle : n ≤ visits.length) (g : FrameNumber)
    (hg : g.toNat < m.kernel.frames.directory.size) : m.kernel.frames.directory.Evictable g := by
  rw [h.size] at hg
  exact h.used g (by omega) hg

theorem toNat_next : (FrameNumber.ofNat (visits.length % n)).toNat = visits.length % n :=
  FrameNumber.toNat_ofNat (lt_of_lt_of_le (Nat.mod_lt _ h.pos) h.bound)

/-- The victim, and the ring afterwards. -/
theorem victim (hle : n ≤ visits.length) : ∃ t,
    m.kernel.frames.selectVictim = (some (.ofNat (visits.length % n)), t) ∧
      t.clock.hand = (visits.length + 1) % n ∧ t.directory.size = n ∧
      ∀ j : FrameInfo ProcessId, j.referenced = m.kernel.config.referenceOnInstall →
        Clock.InOrder m.kernel.config.referenceOnInstall
          (Clock.ring t.clock.hand (t.directory.set (.ofNat (visits.length % n)) j)) := by
  cases hvictim : m.kernel.frames.selectVictim with
  | mk victim t =>
    cases victim with
    | none =>
      obtain ⟨-, hnone⟩ := FrameTable.selectVictim_none hvictim
      have hlt : (FrameNumber.ofNat (visits.length % n)).toNat < m.kernel.frames.directory.size := by
        rw [h.toNat_next, h.size]
        exact Nat.mod_lt _ h.pos
      exact absurd (h.evictable hle _ hlt) (hnone _)
    | some f =>
      obtain ⟨mark, rest, hring⟩ := h.exists_ring hle
      have horder := h.order hle
      have hclock := FrameTable.clock_selectVictim hvictim
      rw [hring] at horder
      obtain ⟨rest', hnext, -, horder'⟩ := horder.next
      have hnext' : ∀ j : FrameInfo ProcessId, j.referenced = m.kernel.config.referenceOnInstall →
          some (FrameNumber.ofNat (visits.length % n), rest' ++ [(FrameNumber.ofNat
            (visits.length % n), m.kernel.config.referenceOnInstall)]) =
          some (f, Clock.ring t.clock.hand (t.directory.set f j)) := fun j hj => by
        rw [← Clock.next_ring (h.size ▸ h.bound) (h.evictable hle) hclock j, hring, hj, hnext]
      have hf : FrameNumber.ofNat (visits.length % n) = f :=
        congrArg Prod.fst (Option.some.inj (hnext' ⟨none, ⟨0⟩, 0, _⟩ rfl))
      subst hf
      refine ⟨t, rfl, ?_, ?_, fun j hj => ?_⟩
      · rw [Clock.hand_of_selectVictim hclock, h.toNat_next, h.size, Nat.mod_add_mod]
      · rw [← (FrameTable.selectVictim_some hvictim).2.2.2.1, h.size]
      · have hring' : rest' ++ [(FrameNumber.ofNat (visits.length % n),
            m.kernel.config.referenceOnInstall)] =
              Clock.ring t.clock.hand (t.directory.set (.ofNat (visits.length % n)) j) :=
          congrArg Prod.snd (Option.some.inj (hnext' j hj))
        rw [← hring']
        exact horder'

/-- Access number `k` is in a frame only as long as it is one of the last `n`. -/
theorem frame_inj {k l : Nat} (hk : visits.length ≤ k + n) (hk' : k < visits.length)
    (hl : visits.length ≤ l + n) (hl' : l < visits.length)
    (heq : FrameNumber.ofNat (k % n) = .ofNat (l % n)) : k = l := by
  have hlt : ∀ i, i % n < wordBound := fun i => lt_of_lt_of_le (Nat.mod_lt _ h.pos) h.bound
  have hmod : k % n = l % n := by
    rw [← FrameNumber.toNat_ofNat (hlt k), heq, FrameNumber.toNat_ofNat (hlt l)]
  have hkl := Nat.sub_mod_eq_zero_of_mod_eq hmod
  have hlk := Nat.sub_mod_eq_zero_of_mod_eq hmod.symm
  rw [Nat.mod_eq_of_lt (by omega)] at hkl hlk
  omega

section Access

variable (habsent : (m.table p).translate? page = none) (ha : m.Accessed m' p page f)
include ha

/-- The page gets the next frame in turn. -/
theorem frame_of_accessed : f = .ofNat (visits.length % n) := by
  cases ha.pool with
  | free stack stack' directory clock =>
    have hlt : visits.length < n := by
      by_contra hge
      rw [h.stack_eq_nil_iff.mpr (Nat.not_lt.mp hge)] at stack
      cases stack
    rw [h.stack_of_lt hlt] at stack
    exact (List.cons.inj stack).1.symm
  | evicted stack stack' victim directory clock =>
    obtain ⟨t, ht, -⟩ := h.victim (h.stack_eq_nil_iff.mp stack)
    rw [ht] at victim
    exact (Option.some.inj (Prod.ext_iff.mp victim).1).symm

/-- The page that loses its frame is that of the access `n` before. -/
theorem vacated_of_accessed : ∃ translated : UserProcess → PageNumber → Option FrameNumber,
    (∀ (q : UserProcess) (page' : PageNumber), (m'.table q).translate? page' =
      if q.table.index = p.table.index ∧ page' = page then some f else translated q page') ∧
    ∀ (q : UserProcess) (page' : PageNumber) (g : FrameNumber), translated q page' = some g ↔
      ∃ k r, visits[k]? = some (r, page') ∧ visits.length + 1 ≤ k + n ∧
        r.table.index = q.table.index ∧ g = .ofNat (k % n) := by
  cases ha.tables with
  | free stack table =>
    have hlt : visits.length < n := Nat.not_le.mp fun hle => stack (h.stack_eq_nil_iff.mpr hle)
    refine ⟨fun q => (m.table q).translate?, table, fun q page' g => (h.resident q page' g).trans ?_⟩
    exact exists_congr fun k => exists_congr fun r => and_congr_right fun _ =>
      and_congr_left fun _ => ⟨fun _ => by omega, fun _ => by omega⟩
  | @evicted q₁ page₁ i pid stack info owner held process mapped table =>
    have hle := h.stack_eq_nil_iff.mp stack
    obtain ⟨k₁, r₁, hk₁, hlast₁, hindex₁, hf⟩ := (h.resident q₁ page₁ f).mp mapped
    obtain ⟨hlt₁, -⟩ := List.getElem?_eq_some_iff.mp hk₁
    have hfirst : k₁ = visits.length - n := by
      refine h.frame_inj hlast₁ hlt₁ (by omega) (by have := h.pos; omega) ?_
      rw [← hf, h.frame_of_accessed ha, ← Nat.sub_add_cancel hle, Nat.add_sub_cancel, Nat.add_mod_right]
    refine ⟨_, table, fun q page' g => ?_⟩
    by_cases hvictim : q.table.index = q₁.table.index ∧ page' = page₁
    · obtain ⟨hindex, rfl⟩ := hvictim
      rw [if_pos ⟨hindex, rfl⟩]
      refine ⟨nofun, fun ⟨k, r, hk, hlast, hr, _⟩ => ?_⟩
      have hmapped := (h.resident q₁ page' (.ofNat (k % n))).mpr
        ⟨k, r, hk, by omega, hr.trans hindex, rfl⟩
      obtain ⟨hlt, -⟩ := List.getElem?_eq_some_iff.mp hk
      have hsame : k = k₁ := by
        refine h.frame_inj (by omega) hlt hlast₁ hlt₁ ?_
        rw [← hf]
        exact Option.some.inj (hmapped.symm.trans mapped)
      omega
    · rw [if_neg hvictim, h.resident]
      refine exists_congr fun k => exists_congr fun r => and_congr_right fun hk =>
        and_congr_left fun ⟨hr, _⟩ => ⟨fun hlast => ?_, fun _ => by omega⟩
      by_contra hnot
      have hsame : k = k₁ := by omega
      rw [hsame, hk₁] at hk
      cases hk
      exact hvictim ⟨hr.symm.trans hindex₁, rfl⟩

/-- The pages of the last `n` accesses are resident. -/
theorem resident_of_accessed (habsent : (m.table p).translate? page = none) (q : UserProcess)
    (page' : PageNumber) (g : FrameNumber) : (m'.table q).translate? page' = some g ↔
      ∃ k r, (visits ++ [(p, page)])[k]? = some (r, page') ∧ visits.length + 1 ≤ k + n ∧
        r.table.index = q.table.index ∧ g = .ofNat (k % n) := by
  obtain ⟨translated, htable, htranslated⟩ := h.vacated_of_accessed ha
  have hpos := h.pos
  have hframe := h.frame_of_accessed ha
  have hlast : (visits ++ [(p, page)])[visits.length]? = some (p, page) := by simp
  have hold : ∀ k < visits.length, (visits ++ [(p, page)])[k]? = visits[k]? :=
    fun k hk => List.getElem?_append_left hk
  rw [htable]
  by_cases hnew : q.table.index = p.table.index ∧ page' = page
  · obtain ⟨hindex, rfl⟩ := hnew
    rw [if_pos ⟨hindex, rfl⟩]
    constructor
    · rintro ⟨⟩
      exact ⟨visits.length, p, hlast, by omega, hindex.symm, hframe⟩
    · rintro ⟨k, r, hk, hle, hr, rfl⟩
      obtain ⟨hlt, -⟩ := List.getElem?_eq_some_iff.mp hk
      rw [List.length_append, List.length_singleton] at hlt
      obtain hlt | rfl := Nat.lt_succ_iff_lt_or_eq.mp hlt
      · have hmapped := (h.resident p page' (.ofNat (k % n))).mpr
          ⟨k, r, (hold k hlt).symm.trans hk, by omega, hr.trans hindex, rfl⟩
        cases habsent.symm.trans hmapped
      · rw [hframe]
  · rw [if_neg hnew, htranslated]
    refine exists_congr fun k => exists_congr fun r => ?_
    constructor
    · rintro ⟨hk, hrest⟩
      obtain ⟨hlt, -⟩ := List.getElem?_eq_some_iff.mp hk
      exact ⟨(hold k hlt).trans hk, hrest⟩
    · rintro ⟨hk, hle, hr, hg⟩
      obtain ⟨hlt, -⟩ := List.getElem?_eq_some_iff.mp hk
      rw [List.length_append, List.length_singleton] at hlt
      obtain hlt | rfl := Nat.lt_succ_iff_lt_or_eq.mp hlt
      · exact ⟨(hold k hlt).symm.trans hk, hle, hr, hg⟩
      · rw [hlast] at hk
        cases hk
        exact absurd ⟨hr.symm, rfl⟩ hnew

/-- **One access more.** -/
theorem accessed (habsent : (m.table p).translate? page = none) :
    m'.InTurn n (visits ++ [(p, page)]) := by
  have hresident := h.resident_of_accessed ha habsent
  have hframe := h.frame_of_accessed ha
  have hpos := h.pos
  have hlength : (visits ++ [(p, page)]).length = visits.length + 1 := by simp
  have hmod := Nat.mod_lt visits.length hpos
  have hnat := h.toNat_next
  -- The record of the frame, which is used from now on.
  let j : FrameInfo ProcessId := ⟨some p.pid, page, 0, m.kernel.config.referenceOnInstall⟩
  have hset : ∀ d : Directory ProcessId, d.size = n →
      (∀ g : FrameNumber, g.toNat < visits.length → g.toNat < n → d.Evictable g) →
      ∀ g : FrameNumber, g.toNat < visits.length + 1 → g.toNat < n → (d.set f j).Evictable g := by
    intro d hsize hused g hg hn
    by_cases hgf : g = f
    · have hlt : f.toNat < d.size := by rw [hframe, hnat, hsize]; exact hmod
      refine ⟨j, ?_, Option.some_ne_none _, rfl⟩
      rw [Directory.get?_set, if_pos hgf, Directory.get?, Array.getElem?_eq_getElem hlt]
      rfl
    · have hne : g.toNat ≠ visits.length % n := fun heq => by
        rw [← hnat, ← hframe] at heq
        exact hgf (FrameNumber.toNat_inj.mp heq)
      have hold : g.toNat < visits.length := by
        by_contra hge
        rw [Nat.mod_eq_of_lt (by omega)] at hne
        omega
      rw [Directory.Evictable, Directory.get?_set, if_neg hgf]
      exact hused g hold hn
  have hfaults : m'.kernel.stats.faults = (visits ++ [(p, page)]).length := by
    rw [ha.faults, h.faults, hlength]
  cases ha.pool with
  | free stack stack' directory clock =>
    have hlt : visits.length < n := by
      by_contra hge
      rw [h.stack_eq_nil_iff.mpr (Nat.not_lt.mp hge)] at stack
      cases stack
    have hsame : ∀ g, m'.kernel.frames.directory.referenced g = if g = f then
        m.kernel.config.referenceOnInstall else m.kernel.frames.directory.referenced g := fun g => by
      have hnothing : Clock.Unmarks m.kernel.frames.directory m.kernel.frames.directory [] :=
        ⟨rfl, by simp⟩
      rw [directory, Clock.referenced_set hnothing (by rw [hframe, hnat, h.size]; exact hmod)]
      simp
    rw [Nat.mod_eq_of_lt hlt] at hnat hframe
    have hmarks : ∀ g : FrameNumber, g.toNat < visits.length + 1 →
        m'.kernel.frames.directory.referenced g = m'.kernel.config.referenceOnInstall :=
      fun g hg => by
        rw [hsame, ha.config]
        split
        · rfl
        · next hne =>
          refine h.marks hlt g (Nat.lt_of_le_of_ne (Nat.lt_succ_iff.mp hg) fun heq => hne ?_)
          rw [hframe, ← heq, FrameNumber.ofNat_toNat]
    have htop := stack
    rw [h.stack_of_lt hlt] at htop
    refine ⟨hpos, h.bound, ?_, ?_, ?_, ?_, fun hlt' g hg => ?_, fun hle => ?_, ?_, hfaults, ?_⟩
    · rw [directory, Directory.size_set, h.size]
    · rw [stack', ← (List.cons.inj htop).2, hlength]
    · rw [clock, h.hand, if_pos hlt, hlength]
      split
      · rfl
      · rw [show visits.length + 1 = n by omega, Nat.mod_self]
    · rw [directory, hlength]
      exact hset _ h.size h.used
    · rw [hlength] at hg
      exact hmarks g hg
    · rw [hlength] at hle
      have hall : Clock.ring m'.kernel.frames.clock.hand m'.kernel.frames.directory =
          (Clock.turn m'.kernel.frames.clock.hand n).map
            fun g => (g, m'.kernel.config.referenceOnInstall) := by
        rw [Clock.ring, directory, Directory.size_set, h.size, ← directory]
        refine List.map_congr_left fun g hg => ?_
        have := Clock.toNat_lt_of_mem_turn h.bound hg
        rw [hmarks g (by omega)]
      rw [hall]
      exact Clock.inOrder_map ..
    · simpa only [hlength] using hresident
    · rw [ha.evictions, h.evictions, if_neg (by simp [stack]), hlength]
      omega
  | evicted stack stack' victim directory clock =>
    have hle := h.stack_eq_nil_iff.mp stack
    obtain ⟨t, ht, hhand, hsize, horder⟩ := h.victim hle
    rw [ht] at victim
    cases victim
    refine ⟨hpos, h.bound, ?_, ?_, ?_, ?_, fun hlt' => ?_, fun hle => ?_, ?_, hfaults, ?_⟩
    · rw [directory, Directory.size_set, hsize]
    · rw [stack', hlength, List.drop_eq_nil_of_le (by simp; omega), List.map_nil]
    · rw [clock, hhand, hlength, if_neg (by omega)]
    · rw [directory, hlength]
      refine hset _ hsize fun g hg hg' => ?_
      exact (FrameTable.selectVictim_some ht).2.2.2.evictable (h.used g hg hg')
    · rw [hlength] at hlt'
      omega
    · rw [directory, clock, ha.config]
      exact horder j rfl
    · simpa only [hlength] using hresident
    · rw [ha.evictions, h.evictions, if_pos stack, hlength]
      omega

end Access

end InTurn

end Machine

namespace Machine

variable {n : Nat} {visits : List (UserProcess × PageNumber)} {m : Machine}

/-- No page of a new process is resident. -/
theorem Newborn.translate?_joined {image : Executable} {p : UserProcess} {t : PageTable}
    (h : m.Newborn image p t) (q : UserProcess) (page : PageNumber) :
    ((m.joined p t).table q).translate? page = (m.table q).translate? page := by
  have habsent : t.translate? page = none := by
    cases he : t.get? page with
    | none => rw [PageTable.translate?, he, Option.bind_none]
    | some e => rw [PageTable.translate?, he, Option.bind_some, h.absent page e he]
  rw [Machine.table, Machine.table, joined, Array.getElem?_push]
  split
  · next hindex =>
    rw [hindex, Array.getElem?_eq_none (Nat.le_refl _), Option.getD_some, habsent]
    rfl
  · rfl

/-- Machines that look alike create the same process. -/
theorem Newborn.eq_of_like {m' : Machine} {image : Executable} {p p' : UserProcess} {t t' : PageTable}
    (h : m.Newborn image p t) (h' : m'.Newborn image p' t') (hlike : m.Like false m') :
    p = p' ∧ t = t' := by
  have hpid : m.kernel.nextPid = m'.kernel.nextPid := congrArg (·.kernel.nextPid) hlike
  have hsize : m.tables.size = m'.tables.size := by
    simpa [seen] using congrArg (·.tables.size) hlike
  have hpages : m.kernel.config.stackPages = m'.kernel.config.stackPages :=
    congrArg (·.kernel.config.stackPages) hlike
  obtain ⟨pid, index, rfl, -, layout, table, argv, argc, mode⟩ := h
  obtain ⟨pid', index', himage, -, layout', table', argv', argc', mode'⟩ := h'
  have hlayout : p.layout = p'.layout := by
    rw [hpages, layout'] at layout
    exact (Except.ok.inj layout).symm
  have hargv : p.argv = p'.argv := by
    rw [hlayout, argv'] at argv
    exact (Option.some.inj argv).symm
  have htable : t = t' := by
    rw [hlayout, table'] at table
    exact (Except.ok.inj table).symm
  refine ⟨?_, htable⟩
  obtain ⟨_, _, _, _, _, _, ⟨_⟩⟩ := p
  obtain ⟨_, _, _, _, _, _, ⟨_⟩⟩ := p'
  simp_all

/-- What is created is not refused. -/
theorem Newborn.not_refused {image : Executable} {p : UserProcess} {t : PageTable}
    (h : m.Newborn image p t) (stop : Stop VmError) : ¬ Action.Refused m image [] stop := by
  rintro (hlayout | ⟨-, hsize, -⟩)
  · rw [h.layout] at hlayout
    cases hlayout
  · exact absurd hsize (by decide)

theorem Like.joined {m' : Machine} (h : m.Like false m') (p : UserProcess) (t : PageTable) :
    (m.joined p t).Like false (m'.joined p t) := by
  have heq : ∀ m : Machine, (m.joined p t).seen false = (m.seen false).joined p (t.seen false) :=
    fun m => by simp [Machine.joined, seen]
  have hm : m.seen false = m'.seen false := h
  rw [Like, heq, heq, hm]

theorem InTurn.joined (h : m.InTurn n visits) {image : Executable} {p : UserProcess} {t : PageTable}
    (hp : m.Newborn image p t) (ev ev' : Event) :
    (((m.joined p t).noted ev).noted ev').InTurn n visits :=
  ⟨h.pos, h.bound, h.size, h.stack, h.hand, h.used, h.marks, h.order,
    fun q page f => by rw [← h.resident, ← hp.translate?_joined q page]; rfl, h.faults, h.evictions⟩

theorem InTurn.boot {config : Config} {swap : Swap} (h : Machine.boot config swap = .ok m) :
    m.InTurn config.frameCount [] ∧ m.tables.size = 0 := by
  have hpos : 0 < config.frameCount := by
    by_contra hzero
    rw [Machine.boot, Kernel.boot, if_pos (by omega)] at h
    cases h
  obtain ⟨hbound, rfl⟩ := eq_started_of_boot h
  refine ⟨⟨hpos, hbound, ?_, ?_, ?_, fun f hf => absurd hf (Nat.not_lt_zero _),
    fun _ f hf => absurd hf (Nat.not_lt_zero _), fun hle => ?_, fun q page f => ?_, rfl, ?_⟩, rfl⟩
  · exact Array.size_replicate
  · rfl
  · rw [List.length_nil, if_pos hpos]
    rfl
  · rw [List.length_nil] at hle
    omega
  · simp [started, table, PageTable.translate?, PageTable.get?, PageTable.empty]
  · rw [List.length_nil, Nat.zero_sub]
    rfl

end Machine

/-- The call has returned. -/
def Progress.returned : Progress → Bool
  | .finished (.returned _) => true
  | _ => false

namespace FaultRun

variable {config : Config} {swap : Swap} {m : Machine} {errands : List Errand} {errand : Errand}
  {n : Nat} {s s' : FaultRun}

/-- The frames were taken in turn, for pages of processes that have page tables of their own. -/
structure Ordered (n : Nat) (s : FaultRun) : Prop where
  inTurn : s.machine.InTurn n s.visits
  tables : ∀ p ∈ s.processes, p.table.index < s.machine.tables.size
  distinct : s.processes.Pairwise fun p q => p.table.index ≠ q.table.index
  visited : ∀ v ∈ s.visits, v.1 ∈ s.processes

theorem Ordered.next (h : s.Ordered n) (hstep : s.Next errand s') : s'.Ordered n := by
  cases hstep with
  | @spawn image pr m' run =>
    obtain ⟨stop, -, hrun⟩ | ⟨p, t, ev, ev', hp, hrun⟩ := s.machine.spawn_demand image
    · rw [hrun] at run
      cases run
      have hnone : (Progress.finished (Outcome.ofStop stop)).spawned? = none := by cases stop <;> rfl
      rw [hnone, Option.toList_none, List.append_nil]
      exact ⟨h.inTurn, h.tables, h.distinct, h.visited⟩
    · rw [hrun] at run
      cases run
      have hsize : (((s.machine.joined p t).noted ev).noted ev').tables.size =
          s.machine.tables.size + 1 := Array.size_push _
      have hindex := hp.index
      refine ⟨h.inTurn.joined hp ev ev', fun q hq => ?_, ?_, fun v hv => ?_⟩
      · rw [hsize]
        obtain hq | hq := List.mem_append.mp hq
        · exact Nat.lt_succ_of_lt (h.tables q hq)
        · rw [List.mem_singleton.mp hq]
          omega
      · refine List.pairwise_append.mpr ⟨h.distinct, List.pairwise_singleton .., fun q hq r hr => ?_⟩
        rw [List.mem_singleton.mp hr, hindex]
        exact (h.tables q hq).ne
      · exact List.mem_append_left _ (h.visited v hv)
  | @request i r p page a m' process single absent run =>
    obtain ⟨f, ha⟩ := accessed_of_run single absent run
    refine ⟨h.inTurn.accessed ha absent, fun q hq => ?_, h.distinct, fun v hv => ?_⟩
    · rw [ha.sizes]
      exact h.tables q hq
    · obtain hv | hv := List.mem_append.mp hv
      · exact h.visited v hv
      · rw [List.mem_singleton.mp hv]
        exact List.mem_of_getElem? process

theorem From.ordered (hboot : Machine.boot config swap = .ok m) (h : From m errands s) :
    s.Ordered config.frameCount := by
  induction h with
  | start => exact ⟨(InTurn.boot hboot).1, by simp, List.Pairwise.nil, by simp⟩
  | next _ step ih => exact ih.next step

/-! ## The same errands on two machines -/

/-- Two runs that do the same, whatever marks the clocks have found. -/
structure Alike (s s' : FaultRun) : Prop where
  machine : s.machine.Like false s'.machine
  processes : s'.processes = s.processes
  visits : s'.visits = s.visits

variable {t t' : FaultRun}

/-- The same process is created, or none. -/
theorem Alike.spawn (h : s.Alike t) {image : Executable} (hs : s.Next (.spawn image) s')
    (ht : t.Next (.spawn image) t') : s'.Alike t' := by
  have hpages : s.machine.kernel.config.stackPages = t.machine.kernel.config.stackPages :=
    congrArg (·.kernel.config.stackPages) h.machine
  have hrefused : ∀ stop, Action.Refused s.machine image [] stop ↔
      Action.Refused t.machine image [] stop := fun stop => by
    rw [Action.Refused, hpages, Action.Refused]
  have hnone : ∀ stop, (Progress.finished (Outcome.ofStop stop)).spawned? = none :=
    fun stop => by cases stop <;> rfl
  cases hs with
  | @spawn image pr m' run =>
    cases ht with
    | @spawn image pr' k' run' =>
      obtain ⟨stop, hstop, hrun⟩ | ⟨p, pt, ev, ev', hp, hrun⟩ := s.machine.spawn_demand image <;>
        obtain ⟨stop', hstop', hrun'⟩ | ⟨q, qt, ew, ew', hq, hrun'⟩ := t.machine.spawn_demand image
      · rw [hrun] at run
        rw [hrun'] at run'
        cases run
        cases run'
        exact ⟨h.machine, by rw [hnone, hnone, h.processes], h.visits⟩
      · exact absurd ((hrefused stop).mp hstop) (hq.not_refused stop)
      · exact absurd ((hrefused stop').mpr hstop') (hp.not_refused stop')
      · rw [hrun] at run
        rw [hrun'] at run'
        cases run
        cases run'
        obtain ⟨rfl, rfl⟩ := hp.eq_of_like hq h.machine
        exact ⟨h.machine.joined p pt, by rw [h.processes], h.visits⟩

/-- The same page is accessed, in the same way. -/
theorem Alike.request (h : s.Alike t) (hs : s.Ordered n) (ht : t.Ordered n) {i : Nat} {r : Request}
    (hs' : s.Next (.request i r) s') (ht' : t.Next (.request i r) t') : s'.Alike t' := by
  cases hs' with
  | @request i r p page a m₁ process single absent run =>
    cases ht' with
    | @request i r p' page' a' k₁ process' single' absent' run' =>
      rw [h.processes, process] at process'
      cases process'
      cases single.eq single'
      obtain ⟨f, m₂, hresolve, hvisit⟩ := Call.of_run_single single run
      obtain ⟨f', k₂, hresolve', hvisit'⟩ := Call.of_run_single single run'
      have hvictim : Action.SameVictim false s.machine t.machine := fun _ hstack => by
        have hle := hs.inTurn.stack_eq_nil_iff.mp hstack
        obtain ⟨u, hu, -⟩ := hs.inTurn.victim hle
        obtain ⟨u', hu', -⟩ := ht.inTurn.victim (h.visits ▸ hle)
        rw [hu, hu', h.visits]
      have hgrant := Action.corresponds_resolve h.machine hvictim p page r.kind
      rw [hresolve, hresolve'] at hgrant
      cases hgrant with
      | ok value like =>
        cases value
        have hanswer := Action.corresponds_visit like p r f
        rw [hvisit, hvisit'] at hanswer
        cases hanswer with
        | ok value like => exact ⟨like, h.processes, by rw [h.visits]⟩

theorem Alike.next (h : s.Alike t) (hs : s.Ordered n) (ht : t.Ordered n) (hs' : s.Next errand s')
    (ht' : t.Next errand t') : s'.Alike t' := by
  cases errand with
  | spawn image => exact h.spawn hs' ht'
  | request i r => exact h.request hs ht hs' ht'

/-! ## First in, first out -/

/-- The pages of the last `n` accesses are resident, that of access number `k` in frame `k mod n`. Every
access is a fault, and all but the first `n` of them have evicted a page. -/
structure FirstInFirstOut (n : Nat) (s : FaultRun) : Prop where
  resident : ∀ p ∈ s.processes, ∀ (page : PageNumber) (f : FrameNumber),
    (s.machine.table p).translate? page = some f ↔ ∃ k, s.visits[k]? = some (p, page) ∧
      s.visits.length ≤ k + n ∧ f = .ofNat (k % n)
  hand : n < s.visits.length → s.machine.kernel.frames.clock.hand = s.visits.length % n
  faults : s.machine.kernel.stats.faults = s.visits.length
  evictions : s.machine.kernel.stats.evictions = s.visits.length - n

/-- An access of `page` places it in the next frame in turn. The page that loses that frame is the one
that the access `n` before has placed there, and every other page stays where it is. -/
structure Turn (n : Nat) (s s' : FaultRun) (p : UserProcess) (page : PageNumber) : Prop where
  visits : s'.visits = s.visits ++ [(p, page)]
  placed : (s'.machine.table p).translate? page = some (.ofNat (s.visits.length % n))
  evicted : n ≤ s.visits.length → ∃ q page', s.visits[s.visits.length - n]? = some (q, page') ∧
    (s.machine.table q).translate? page' = some (.ofNat (s.visits.length % n)) ∧
    (s'.machine.table q).translate? page' = none
  others : ∀ q ∈ s.processes, ∀ page', (q, page') ≠ (p, page) →
    (n ≤ s.visits.length → s.visits[s.visits.length - n]? ≠ some (q, page')) →
    (s'.machine.table q).translate? page' = (s.machine.table q).translate? page'
  hand : n ≤ s.visits.length →
    s'.machine.kernel.frames.clock.hand = (s.visits.length + 1) % n
  evictions : s'.machine.kernel.stats.evictions =
    s.machine.kernel.stats.evictions + (if n ≤ s.visits.length then 1 else 0)

namespace Ordered

variable (h : s.Ordered n)
include h

theorem firstInFirstOut : s.FirstInFirstOut n := by
  refine ⟨fun p hp page f => ?_, fun hlt => ?_, h.inTurn.faults, h.inTurn.evictions⟩
  · refine (h.inTurn.resident p page f).trans (exists_congr fun k => ?_)
    constructor
    · rintro ⟨r, hk, hlast, hindex, hf⟩
      have hr : r ∈ s.processes := h.visited _ (List.mem_of_getElem? hk)
      have : Std.Symm fun p q : UserProcess => p.table.index ≠ q.table.index := ⟨fun _ _ h => h.symm⟩
      have hsame : r = p := by
        by_contra hne
        exact h.distinct.forall hr hp hne hindex
      exact ⟨hsame ▸ hk, hlast, hf⟩
    · rintro ⟨hk, hlast, hf⟩
      exact ⟨p, hk, hlast, rfl, hf⟩
  · rw [h.inTurn.hand, if_neg (by omega)]

theorem turn {i : Nat} {r : Request} (hstep : s.Next (.request i r) s') :
    ∃ p page, s.processes[i]? = some p ∧ r.Single p page ∧ s.Turn n s' p page := by
  have hafter := (h.next hstep).firstInFirstOut
  have hnext := (h.next hstep).inTurn
  have hbefore := h.firstInFirstOut
  have hpos := h.inTurn.pos
  cases hstep with
  | @request i r p page a m' process single absent run =>
    have hp : p ∈ s.processes := List.mem_of_getElem? process
    have hlength : (s.visits ++ [(p, page)]).length = s.visits.length + 1 := by simp
    have hlast : (s.visits ++ [(p, page)])[s.visits.length]? = some (p, page) := by simp
    have hold : ∀ k < s.visits.length, (s.visits ++ [(p, page)])[k]? = s.visits[k]? :=
      fun k hk => List.getElem?_append_left hk
    have hresident := hafter.resident
    dsimp only at hresident
    rw [hlength] at hresident
    -- Any other page is resident if it was, unless its frame has come up.
    have hkept : ∀ q ∈ s.processes, ∀ (page' : PageNumber) (g : FrameNumber),
        (q, page') ≠ (p, page) → ((m'.table q).translate? page' = some g ↔
          ∃ k, s.visits[k]? = some (q, page') ∧ s.visits.length + 1 ≤ k + n ∧
            g = .ofNat (k % n)) := fun q hq page' g hne => by
      refine (hresident q hq page' g).trans (exists_congr fun k => ?_)
      by_cases hk : k < s.visits.length
      · rw [hold k hk]
      · have hnone : s.visits[k]? = none := List.getElem?_eq_none (Nat.le_of_not_lt hk)
        rw [hnone]
        refine ⟨fun ⟨hget, _⟩ => ?_, nofun⟩
        obtain ⟨hlt, -⟩ := List.getElem?_eq_some_iff.mp hget
        obtain rfl : k = s.visits.length := by omega
        rw [hlast] at hget
        exact absurd (Option.some.inj hget).symm hne
    refine ⟨p, page, process, single, rfl, ?_, fun hle => ?_, fun q hq page' hne hspared => ?_,
      fun hle => ?_, ?_⟩
    · exact (hresident p hp page _).mpr ⟨s.visits.length, hlast, by omega, rfl⟩
    · obtain ⟨⟨q, page'⟩, hget⟩ : ∃ v, s.visits[s.visits.length - n]? = some v :=
        ⟨_, List.getElem?_eq_getElem (by omega)⟩
      have hq : q ∈ s.processes := h.visited _ (List.mem_of_getElem? hget)
      have hmapped := (hbefore.resident q hq page' (.ofNat (s.visits.length % n))).mpr
        ⟨s.visits.length - n, hget, by omega, by
          rw [← Nat.sub_add_cancel hle, Nat.add_sub_cancel, Nat.add_mod_right]⟩
      have hne : (q, page') ≠ (p, page) := by
        rintro ⟨⟩
        cases absent.symm.trans hmapped
      refine ⟨q, page', hget, hmapped, Option.eq_none_iff_forall_ne_some.mpr fun g hg => ?_⟩
      obtain ⟨k, hk, hlast', rfl⟩ := (hkept q hq page' g hne).mp hg
      obtain ⟨hlt, -⟩ := List.getElem?_eq_some_iff.mp hk
      have hsame := (hbefore.resident q hq page' _).mpr ⟨k, hk, by omega, rfl⟩
      have hframe := Option.some.inj (hsame.symm.trans hmapped)
      have := h.inTurn.frame_inj (l := s.visits.length - n) (by omega) hlt (by omega) (by omega) (by
        rw [hframe, ← Nat.sub_add_cancel hle, Nat.add_sub_cancel, Nat.add_mod_right])
      omega
    · refine Option.ext fun g => (hkept q hq page' g hne).trans
        (Iff.trans (exists_congr fun k => ?_) (hbefore.resident q hq page' g).symm)
      refine and_congr_right fun hk => and_congr_left fun _ =>
        ⟨fun hlast' => by omega, fun hlast' => ?_⟩
      obtain ⟨hlt, -⟩ := List.getElem?_eq_some_iff.mp hk
      by_contra hfirst
      have hle : n ≤ s.visits.length := by omega
      refine hspared hle ?_
      rw [← hk]
      congr 1
      omega
    · rw [hnext.hand, hlength, if_neg (by omega)]
    · rw [hnext.evictions, h.inTurn.evictions, hlength]
      split <;> omega

end Ordered

/-- What was done last, and what was done before. -/
theorem From.of_append (h : From m (errands ++ [errand]) s') :
    ∃ s, From m errands s ∧ s.Next errand s' := by
  generalize hall : errands ++ [errand] = all at h
  cases h with
  | start => simp at hall
  | next run step =>
    obtain ⟨rfl, heq⟩ := List.append_inj' hall rfl
    cases heq
    exact ⟨_, run, step⟩

theorem From.alike {b : Bool} {m' : Machine} (hboot : Machine.boot config swap = .ok m)
    (hboot' : Machine.boot { config with referenceOnInstall := b } swap = .ok m')
    (h : From m errands s) : ∀ {t : FaultRun}, From m' errands t → s.Alike t := by
  induction h with
  | start =>
    intro t ht
    generalize hall : ([] : List Errand) = all at ht
    cases ht with
    | start =>
      obtain ⟨-, rfl⟩ := eq_started_of_boot hboot
      obtain ⟨-, rfl⟩ := eq_started_of_boot hboot'
      exact ⟨rfl, rfl, rfl⟩
    | next run step => simp at hall
  | next run step ih =>
    intro t ht
    obtain ⟨t₀, hrun, hstep⟩ := ht.of_append
    exact (ih hrun).next (run.ordered hboot) (hrun.ordered hboot' :) step hstep

/-- **Frames are taken in turn**, and whether a page that was just brought in counts as referenced makes
no difference to a run. -/
theorem first_in_first_out (hboot : Machine.boot config swap = .ok m) (h : From m errands s) :
    s.FirstInFirstOut config.frameCount ∧
    (∀ (i : Nat) (r : Request) (s' : FaultRun), s.Next (.request i r) s' →
      ∃ p page, s.processes[i]? = some p ∧ r.Single p page ∧ s.Turn config.frameCount s' p page) ∧
    ∀ (b : Bool) (m' : Machine) (t : FaultRun),
      Machine.boot { config with referenceOnInstall := b } swap = .ok m' → From m' errands t →
        t.processes = s.processes ∧ t.visits = s.visits ∧ s.machine.Like false t.machine := by
  refine ⟨(h.ordered hboot).firstInFirstOut, fun i r s' => (h.ordered hboot).turn,
    fun b m' t hboot' ht => ?_⟩
  have halike := h.alike hboot hboot' ht
  exact ⟨halike.processes, halike.visits, halike.machine⟩

/-- A process was created on a machine with one frame. -/
def created : FaultRun :=
  let r := (started ⟨1, 1, true⟩ (.empty none)).spawn (.zeroes "walker" 1) [] .demand
  ⟨r.2, r.1.spawned?.toList, []⟩

/-- The process that was created. It has three pages. -/
def walker : UserProcess := created.processes.head (List.cons_ne_nil _ _)

/-- The run after a request for a page of the process. -/
def walked (s : FaultRun) (r : Request) (page : PageNumber) : FaultRun :=
  ⟨((r.toCall walker).run s.machine).2, s.processes, s.visits ++ [(walker, page)]⟩

theorem next_walked {s : FaultRun} {i : Nat} {r : Request} {page : PageNumber}
    (hprocess : s.processes[i]? = some walker) (hsingle : r.Single walker page)
    (habsent : (s.machine.table walker).translate? page = none)
    (hreturned : ((r.toCall walker).run s.machine).1.returned = true) :
    s.Next (.request i r) (s.walked r page) := by
  cases hrun : (r.toCall walker).run s.machine with
  | mk pr m' =>
    rw [hrun] at hreturned
    rw [walked, hrun]
    match pr, hreturned with
    | .finished (.returned a), _ => exact .request hprocess hsingle habsent hrun

set_option maxRecDepth 20000 in
/-- The second access takes the only frame from the first page, and the third takes it from the second
page, which was written to. -/
theorem first_in_first_out_walked : ∃ s s' : FaultRun,
    From (started ⟨1, 1, true⟩ (.empty none)) [.spawn (.zeroes "walker" 1),
      .request 0 (.fault ⟨0⟩), .request 0 (.write ⟨1024⟩ [7])] s ∧
    s.Next (.request 0 (.read ⟨2050⟩ 4)) s' ∧ s.FirstInFirstOut 1 ∧
    s.Turn 1 s' walker ⟨2⟩ := by
  have hspawn : Next ⟨started ⟨1, 1, true⟩ (.empty none), [], []⟩ (.spawn (.zeroes "walker" 1))
    created := .spawn rfl
  have hfault : created.Next (.request 0 (.fault ⟨0⟩)) (created.walked (.fault ⟨0⟩) ⟨0⟩) :=
    next_walked rfl (.fault rfl) rfl (by decide +kernel)
  have hwrite : (created.walked (.fault ⟨0⟩) ⟨0⟩).Next (.request 0 (.write ⟨1024⟩ [7]))
      ((created.walked (.fault ⟨0⟩) ⟨0⟩).walked (.write ⟨1024⟩ [7]) ⟨1⟩) :=
    next_walked rfl (.write ⟨by decide, by decide, rfl⟩) (by decide +kernel) (by decide +kernel)
  let s := (created.walked (.fault ⟨0⟩) ⟨0⟩).walked (.write ⟨1024⟩ [7]) ⟨1⟩
  have hsingle : (Request.read ⟨2050⟩ 4).Single walker ⟨2⟩ := .read ⟨by decide, by decide, rfl⟩
  have hread : s.Next (.request 0 (.read ⟨2050⟩ 4)) (s.walked (.read ⟨2050⟩ 4) ⟨2⟩) :=
    next_walked rfl hsingle (by decide +kernel) (by decide +kernel)
  have hrun : From (started ⟨1, 1, true⟩ (.empty none)) [.spawn (.zeroes "walker" 1),
      .request 0 (.fault ⟨0⟩), .request 0 (.write ⟨1024⟩ [7])] s :=
    .next (.next (.next .start hspawn) hfault) hwrite
  have hboot : Machine.boot ⟨1, 1, true⟩ (.empty none) = .ok (started ⟨1, 1, true⟩ (.empty none)) := rfl
  obtain ⟨hfifo, hturn, -⟩ := first_in_first_out hboot hrun
  obtain ⟨p, page, hp, hpage, hturn⟩ := hturn 0 _ _ hread
  obtain rfl : walker = p := Option.some.inj hp
  obtain rfl := hsingle.eq hpage
  exact ⟨s, _, hrun, hread, hfifo, hturn⟩

end FaultRun

end DemandPaging
