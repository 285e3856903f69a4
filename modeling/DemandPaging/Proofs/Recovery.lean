import DemandPaging.Proofs.Consistency
import DemandPaging.Proofs.Exit
import DemandPaging.Proofs.Teardown

/-!
# A teardown that stopped can be completed

A teardown stops at a frame that someone keeps pinned, and leaves a mixture behind: the process is
not registered any more, some of its frames are free, the pinned one is still its own, and its
copies lie in swap. Whatever happens later, a second teardown copes with that mixture as soon as
nobody keeps a page of the process pinned.

`System.Unfinished` keeps the books: a process is on the list from a teardown that stopped to one
that did not. The frames of processes that are gone all belong to processes on the list, so the
check of the machine passes when the list is empty.
-/

namespace DemandPaging

open Machine

namespace System

variable {s s' : System} {pids broken : List ProcessId} {mv : Move} {p : UserProcess}

/-! ## Unfinished teardowns -/

/-- Of the teardowns `pids` those that are unfinished after a move, with the one that it stopped. -/
def unfinished (s : System) (mv : Move) (pids : List ProcessId) : List ProcessId :=
  s.broken mv ++ pids.filter fun pid => s.torn? mv ≠ some pid

/-- The systems that allowed moves lead to, each with the processes whose last teardown stopped half
way. -/
inductive Unfinished (allowed : System → Move → Prop) (start : System) :
    System → List ProcessId → Prop
  | start : Unfinished allowed start start []
  | move {s : System} {pids : List ProcessId} (mv : Move) :
    Unfinished allowed start s pids → allowed s mv →
      Unfinished allowed start (s.after mv) (s.unfinished mv pids)

/-- Every run has a list of unfinished teardowns. -/
theorem Reachable.unfinished {allowed : System → Move → Prop} {start : System}
    (h : Reachable allowed start s) : ∃ pids, Unfinished allowed start s pids := by
  induction h with
  | start => exact ⟨[], .start⟩
  | move mv _ ha ih =>
    obtain ⟨pids, hh⟩ := ih
    exact ⟨_, .move mv hh ha⟩

theorem Unfinished.reachable {allowed : System → Move → Prop} {start : System}
    (h : Unfinished allowed start s pids) : Reachable allowed start s := by
  induction h with
  | start => exact .start
  | move mv _ ha ih => exact .move mv ih ha

/-- **A teardown that ends settles those before it.** -/
theorem Sound.unfinished (h : s.Sound [] pids) (hroom : s.HasRoom mv)
    (hs' : (s.after mv).Sound [] (s.broken mv ++ pids)) :
    (s.after mv).Sound [] (s.unfinished mv pids) := by
  refine ⟨hs'.machine.mend ?_ fun pid hpid hnot => ?_, hs'.calls, hs'.held, hs'.answers⟩
  · exact List.append_subset.mpr ⟨List.subset_append_left ..,
      fun pid hpid => List.mem_append_right _ (List.mem_filter.mp hpid).1⟩
  · -- whoever left the list was torn down without a violation just now
    have hnot' := not_or.mp (mt List.mem_append.mpr hnot)
    have hmem := (List.mem_append.mp hpid).resolve_left hnot'.1
    have htorn : s.torn? mv = some pid := by
      by_contra hne
      exact hnot'.2 (List.mem_filter.mpr ⟨hmem, decide_eq_true hne⟩)
    have hends : ∀ v, (s.move mv).1 ≠ some (.violated v) := by
      intro v hv
      refine hnot'.1 ?_
      simp only [System.broken, hv, htorn, Option.toList_some, List.mem_singleton]
    obtain ⟨q, -, rfl, -, hcleared, -⟩ := (turn h hroom).of_torn htorn
    rintro f ⟨⟨page, howner⟩, -⟩
    exact (hcleared hends).unowned f page howner

/-- The frames of processes that are gone belong to those whose teardown is unfinished. -/
theorem Unfinished.sound {config : Config} {swap : Swap} {m : Machine}
    (hboot : Machine.boot config swap = .ok m) (h : Unfinished Trusts (ofMachine m) s pids) :
    s.Sound [] pids := by
  induction h with
  | start => exact sound_boot hboot
  | move mv hrun ha ih =>
    obtain ⟨loose, hs'⟩ := (moved ih ha.1).sound
    have hloose := hs'.answers (hrun.reachable.move mv ha).answers
    exact ih.unfinished ha.1 (hloose ▸ hs')

/-! ## The second teardown -/

/-- Nobody keeps a page of the process pinned, neither a user nor a call. -/
structure Unguarded (s : System) (p : UserProcess) : Prop where
  held : ∀ g ∈ s.held, g.process ≠ p
  calls : ∀ c ∈ s.calls, c.process = p → c.frame? = none

/-- The frames of a process that nobody guards have no pins. -/
theorem Sound.pins_eq_zero (h : s.Sound [] broken) (hp : p ∈ s.processes) (hfree : s.Unguarded p) :
    ∀ f i, s.machine.frameInfo? f = some i → i.owner = some p.pid → i.pins = 0 := by
  intro f i hi howner
  by_contra hpins
  have hf : f ∈ s.pins := by
    by_contra hnot
    refine hpins ((h.machine.agreement.pins f i hi).trans ?_)
    simp only [List.count_eq_zero_of_not_mem hnot, List.count_nil]
  rcases List.mem_append.mp hf with hheld | hcall
  · obtain ⟨g, hg, rfl⟩ := List.mem_map.mp hheld
    obtain ⟨hgp, j, hj, howner', -⟩ := h.held g hg
    rw [hi, Option.some.injEq] at hj
    rw [← hj, howner, Option.some.injEq] at howner'
    exact hfree.held g hg (h.machine.census.eq_of_pid hgp hp howner'.symm)
  · obtain ⟨c, hc, hcf⟩ := List.mem_filterMap.mp hcall
    obtain ⟨hcp, -, hr⟩ := h.calls c hc
    obtain ⟨j, hj, howner', -⟩ := hr f hcf
    rw [hi, Option.some.injEq] at hj
    rw [← hj, howner, Option.some.injEq] at howner'
    rw [hfree.calls c hc (h.machine.census.eq_of_pid hcp hp howner'.symm)] at hcf
    contradiction

/-- Processes stay on the list of those made, and the dead stay dead. -/
theorem Reachable.dead (h : Reachable HasRoom s s') {loose : List FrameNumber}
    (hs : s.Sound loose broken) (hp : p ∈ s.processes)
    (hdead : s.machine.process? p.pid = none) :
    p ∈ s'.processes ∧ s'.machine.process? p.pid = none := by
  refine h.invariant_of_sound
    (P := fun t => p ∈ t.processes ∧ t.machine.process? p.pid = none) hs ⟨hp, hdead⟩ ?_
  rintro t mv loose' broken' ht hroom ⟨hp', hdead'⟩
  have hturn := turn ht hroom
  exact ⟨hturn.mem_processes hp', (hturn.fades ht hp' hdead').dead⟩

/-- A teardown that stops leaves its process dead. -/
theorem Turn.stopped (ht : Turn s mv s') {loose : List FrameNumber} (h : s.Sound loose broken)
    (hp : p ∈ s.processes) (htorn : s.torn? mv = some p.pid) {v : Violation}
    (hstop : (s.move mv).1 = some (.violated v)) :
    s.machine.Clings s'.machine p v ∧ s'.machine.process? p.pid = none := by
  obtain ⟨q, mem, hqp, orderly, -, hclings⟩ := ht.of_torn htorn
  obtain rfl := h.machine.census.eq_of_pid mem hp hqp
  refine ⟨hclings v hstop, ?_⟩
  rw [orderly.registry, process?_without_self]

/-- **A teardown that stopped can be completed.** Let a move tear the process `p` down and stop, in
any system that moves lead to from a machine that has just started; then it stopped at a pinned frame
of `p`, and `p` is not registered any more. Let any moves follow, other calls that stop among them.
As soon as nobody keeps a page of `p` pinned, a teardown of `p` ends without a violation and leaves
nothing of `p`: no frame, no copy and no resident page. If no other teardown is unfinished, the check
of the machine passes. -/
theorem stopped_teardown_completes {config : Config} {swap : Swap} {m : Machine}
    (hboot : Machine.boot config swap = .ok m) {s₀ : System}
    (h₀ : Reachable Trusts (ofMachine m) s₀) (htrusts : s₀.Trusts mv) (hp : p ∈ s₀.processes)
    (htorn : s₀.torn? mv = some p.pid) {v : Violation} (hstop : (s₀.move mv).1 = some (.violated v))
    (hs : Reachable Trusts (s₀.after mv) s) (hfree : s.Unguarded p) :
    s₀.machine.Clings (s₀.after mv).machine p v ∧
    (s₀.after mv).machine.process? p.pid = none ∧
    p ∈ s.processes ∧
    ∀ i, s.processes[i]? = some p → ∃ m',
      s.move (.release i) = (some (.returned .done), { s with machine := m' }) ∧ m'.Gone p ∧
      ∀ pids, Unfinished Trusts (ofMachine m) s pids → (∀ pid ∈ pids, pid = p.pid) →
        m'.check = .ok none := by
  obtain ⟨broken₀, hhistory₀⟩ := h₀.history
  have hsound₀ := hhistory₀.answers hboot
  obtain ⟨loose₁, hsound₁⟩ := (moved hsound₀ htrusts.1).sound
  have hturn := turn hsound₀ htrusts.1
  obtain ⟨hclings, hdead⟩ := hturn.stopped hsound₀ hp htorn hstop
  obtain ⟨hps, hdead'⟩ := (hs.mono fun _ _ ha => ha.1).dead hsound₁ (hturn.mem_processes hp) hdead
  have hreach := (h₀.move mv htrusts).trans hs
  refine ⟨hclings, hdead, hps, fun i hi => ?_⟩
  obtain ⟨broken, hhistory⟩ := hreach.history
  have hsound := hhistory.answers hboot
  obtain ⟨m', freed, hmove, -⟩ := torn_down_exactly hboot (hreach.mono fun _ _ ha => ha.1) hi
    (hsound.pins_eq_zero hps hfree)
  have hmove' : s.after (.release i) = { s with machine := m' } := by rw [after, hmove]
  have hends : ∀ v, (s.move (.release i)).1 ≠ some (.violated v) := by
    rw [hmove]
    exact fun _ heq => by cases heq
  have htorn' : s.torn? (.release i) = some p.pid := torn?_release hi
  have hroom : s.HasRoom (.release i) := trivial
  have hturn' := turn hsound hroom
  refine ⟨m', hmove, ?_, fun pids hpids hall => ?_⟩
  · have hbacked := hturn'.backed hsound ((hreach.mono fun _ _ ha => ha.1).backed hboot)
    have hgone := hturn'.gone hsound hbacked hps htorn' hends
    rw [hmove'] at hgone
    exact hgone
  · have hsettled := (hpids.move (.release i) (trusts_of_ne fun _ _ _ heq => by cases heq)).sound hboot
    have hnil : s.unfinished (.release i) pids = [] := by
      have hbroken : s.broken (.release i) = [] := by rw [System.broken, hmove]
      rw [System.unfinished, hbroken, htorn', List.nil_append, List.filter_eq_nil_iff]
      intro pid hpid
      rw [hall pid hpid]
      simp
    rw [hnil, hmove'] at hsettled
    exact hsettled.machine.check rfl rfl

/-- The only process was torn down while someone kept its page pinned, and a second process tried to
get its frame. Then the page was let go. -/
def recovered : System := (holding.after (.release 0)).run
  [.spawn (Image.ofMemory .empty).toExecutable [] .demand, .step 0, .request 1 (.fault ⟨0⟩), .drop 0,
    .step 0]

/-- The fault of the second process chose the frame of a process that is not registered, and stopped.
The teardown that is tried again ends, and the check passes. -/
theorem stopped_teardown_completes_recovered : ∃ p m',
    recovered.move (.release 0) =
      (some (.returned .done), { recovered with machine := m' }) ∧ m'.Gone p ∧
      m'.check = .ok none := by
  have hfirst : (ofMachine (fresh 1)).Trusts
      (.spawn (Image.ofMemory .empty).toExecutable [] .demand) :=
    trusts_image _ _ _ (show 0 + 1 < wordBound by decide)
  have hsecond : (holding.after (.release 0)).Trusts
      (.spawn (Image.ofMemory .empty).toExecutable [] .demand) :=
    trusts_image _ _ _ (show 1 + 1 < wordBound by decide)
  have hs : Reachable Trusts (holding.after (.release 0)) recovered :=
    Reachable.start.run ⟨hsecond, trusts_of_ne nofun, trusts_of_ne nofun, trusts_of_ne nofun,
      trusts_of_ne nofun, trivial⟩
  have hholding : Unfinished Trusts (ofMachine (fresh 1)) holding [] :=
    .move (.step 0) (.move (.step 0) (.move (.request 0 (.pin ⟨0⟩ .read)) (.move (.step 0)
      (.move (.spawn (Image.ofMemory .empty).toExecutable [] .demand) .start hfirst)
      (trusts_of_ne nofun)) (trusts_of_ne nofun)) (trusts_of_ne nofun)) (trusts_of_ne nofun)
  have hstopped : Unfinished Trusts (ofMachine (fresh 1)) (holding.after (.release 0))
      [ProcessId.ofNat 1] := .move (.release 0) hholding (trusts_of_ne nofun)
  have hpids : Unfinished Trusts (ofMachine (fresh 1)) recovered [ProcessId.ofNat 1] :=
    .move (.step 0) (.move (.drop 0) (.move (.request 1 (.fault ⟨0⟩)) (.move (.step 0)
      (.move (.spawn (Image.ofMemory .empty).toExecutable [] .demand) hstopped hsecond)
      (trusts_of_ne nofun)) (trusts_of_ne nofun)) (trusts_of_ne nofun)) (trusts_of_ne nofun)
  let p := holding.processes.head (List.cons_ne_nil _ _)
  have hheld : ∀ g ∈ recovered.held, g.process ≠ p := fun _ hg => absurd hg List.not_mem_nil
  have hcalls : ∀ c ∈ recovered.calls, c.process = p → c.frame? = none :=
    fun _ hc => absurd hc List.not_mem_nil
  obtain ⟨-, -, -, hagain⟩ := @stopped_teardown_completes recovered (.release 0) p ⟨1, 1, true⟩
    (.empty none) (fresh 1) rfl holding hholding.reachable (trusts_of_ne nofun) (List.head_mem _) rfl
    (.releasedWhilePinned ⟨0⟩) rfl hs ⟨hheld, hcalls⟩
  obtain ⟨m', hmove, hgone, hcheck⟩ := hagain 0 rfl
  exact ⟨p, m', hmove, hgone, hcheck _ hpids fun pid hpid => List.mem_singleton.mp hpid⟩

end System

end DemandPaging
