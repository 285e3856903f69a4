import DemandPaging.Proofs.Tolerance

/-!
# Identities in runs of any length

Identities are words, they start again at 0 after the last one, and nobody looks whether the next one
is still in use. So identities are unique only for so long. `System.Numbered` says which identity
every process has, in all systems that any moves lead to, however many processes were made before.
It follows exactly when a new process takes the identity of one that lives
(`System.Reachable.taken_iff`): if that one was made 2 ^ 32 processes ago. The new process then
takes its place in the register, and the frames and copies on record for it.
-/

namespace DemandPaging

open Machine

/-! ## Numbers -/

/-- The identities of two processes are the same if a multiple of all identities lies in between. -/
theorem ProcessId.ofNat_eq_ofNat {a b : Nat} :
    ofNat a = ofNat b ↔ a % wordBound = b % wordBound := by
  rw [ofNat, ofNat, ProcessId.mk.injEq, ← UInt32.toNat_inj, UInt32.toNat_ofNat', UInt32.toNat_ofNat']
  rfl

theorem ProcessId.next_ofNat (n : Nat) : (ofNat n).next = ofNat (n + 1) := by
  rw [next, ofNat, ofNat, UInt32.ofNat_add]
  rfl

/-! ## Moves -/

namespace Machine

/-- The later machine has no process that the earlier one does not have, and the same identity comes
next. -/
structure Thins (m m' : Machine) : Prop where
  nextPid : m'.kernel.nextPid = m.kernel.nextPid
  registry : ∀ pid p, m'.process? pid = some p → m.process? pid = some p

instance : IsPreorder Machine Thins where
  refl _ := ⟨rfl, fun _ _ h => h⟩
  trans _ _ _ h h' := ⟨h'.nextPid.trans h.nextPid, fun pid p hp =>
    h.registry pid p (h'.registry pid p hp)⟩

/-- Nothing but a new process adds to the register. -/
theorem tolerant_thins : Tolerant Thins where
  noted _ _ := ⟨rfl, fun _ _ h => h⟩
  counted _ _ := ⟨rfl, fun _ _ h => h⟩
  withFrames _ _ := ⟨rfl, fun _ _ h => h⟩
  withMemory _ _ := ⟨rfl, fun _ _ h => h⟩
  withTables _ _ := ⟨rfl, fun _ _ h => h⟩
  stored _ _ _ _ _ := ⟨rfl, fun _ _ h => h⟩
  loaded _ _ _ _ _ _ := ⟨rfl, fun _ _ h => h⟩
  discarded _ _ := ⟨rfl, fun _ _ h => h⟩
  spoiled _ _ := ⟨rfl, fun _ _ h => h⟩
  without m pid := by
    refine ⟨rfl, fun pid' p h => ?_⟩
    rw [process?_without] at h
    split at h
    · contradiction
    · exact h

end Machine

namespace System

variable {s : System} {p q : UserProcess} {mv : Move}

/-- Only a spawn makes a process. -/
theorem processes_after_of_ne_spawn (h : ∀ image args mode, mv ≠ .spawn image args mode) :
    (s.after mv).processes = s.processes := by
  cases mv with
  | spawn image args mode => exact absurd rfl (h image args mode)
  | request i r =>
    simp only [after, move]
    split <;> rfl
  | step i => exact processes_after_step s i
  | drop i => exact (kept_drop s i).1
  | release i => exact (kept_release s i).1
  | spoil unreadable => rfl

/-! ## The invariant -/

/-- The processes have the identities 1, 2, … in the order in which they were made, modulo the word
size. Whoever lives under an identity is the last one made with it. -/
structure Numbered (s : System) : Prop where
  pid : ∀ (i : Nat) (p : UserProcess), s.processes[i]? = some p → p.pid = .ofNat (i + 1)
  nextPid : s.machine.kernel.nextPid = .ofNat (s.processes.length + 1)
  latest : ∀ pid p, s.machine.process? pid = some p → p.pid = pid ∧
    ∃ i : Nat, s.processes[i]? = some p ∧ s.processes.length ≤ i + wordBound

/-- A system in which nothing has happened. -/
theorem numbered_ofMachine {config : Config} {swap : Swap} {m : Machine}
    (hboot : Machine.boot config swap = .ok m) : (ofMachine m).Numbered := by
  obtain ⟨-, rfl⟩ := eq_started_of_boot hboot
  exact ⟨nofun, rfl, nofun⟩

/-- What makes no process keeps the numbers. -/
theorem Numbered.thins {s' : System} (h : s.Numbered) (hprocesses : s'.processes = s.processes)
    (hthins : Thins s.machine s'.machine) : s'.Numbered := by
  refine ⟨fun i p hp => h.pid i p (hprocesses ▸ hp), ?_, fun pid p hp => ?_⟩
  · rw [hthins.nextPid, h.nextPid, hprocesses]
  · rw [hprocesses]
    exact h.latest pid p (hthins.registry pid p hp)

/-- Who lives under the next identity was made as many processes ago as there are identities. -/
theorem Numbered.process?_nextPid (h : s.Numbered) :
    s.machine.process? s.machine.kernel.nextPid = some q ↔
      s.machine.Registered q ∧
        ∃ i : Nat, s.processes[i]? = some q ∧ i + wordBound = s.processes.length := by
  constructor
  · intro hq
    obtain ⟨hpid, i, hi, hle⟩ := h.latest _ q hq
    have hlt := (List.getElem?_eq_some_iff.mp hi).1
    rw [h.pid i q hi, h.nextPid, ProcessId.ofNat_eq_ofNat] at hpid
    refine ⟨?_, i, hi, ?_⟩
    · rwa [Registered, h.pid i q hi, ProcessId.ofNat_eq_ofNat.mpr hpid, ← h.nextPid]
    · simp only [wordBound] at *
      omega
  · rintro ⟨hq, i, hi, heq⟩
    have hpid : q.pid = s.machine.kernel.nextPid := by
      rw [h.pid i q hi, h.nextPid, ← heq, ProcessId.ofNat_eq_ofNat, Nat.add_right_comm,
        Nat.add_mod_right]
    exact hpid ▸ hq

/-- The next process gets the next number. -/
theorem Numbered.joined {s' : System} {t : PageTable} (h : s.Numbered)
    (hpid : p.pid = s.machine.kernel.nextPid) (hprocesses : s'.processes = s.processes ++ [p])
    (hmachine : s'.machine = s.machine.joined p t) : s'.Numbered := by
  have hlength : s'.processes.length = s.processes.length + 1 := by
    rw [hprocesses, List.length_append]
    rfl
  refine ⟨fun i q hq => ?_, ?_, fun pid q hq => ?_⟩
  · rw [hprocesses, List.getElem?_append] at hq
    split at hq
    · exact h.pid i q hq
    · next hge =>
      obtain ⟨hi, rfl⟩ := List.getElem?_eq_some_iff.mp hq
      rw [List.length_singleton] at hi
      rw [List.getElem_singleton, hpid, h.nextPid, show i = s.processes.length by omega]
  · rw [hmachine, hlength]
    exact (congrArg ProcessId.next h.nextPid).trans (ProcessId.next_ofNat _)
  · rw [hmachine, process?_joined] at hq
    split at hq
    · next heq =>
      cases hq
      refine ⟨heq.symm, s.processes.length, ?_, ?_⟩
      · rw [hprocesses, List.getElem?_concat_length]
      · rw [hlength]
        exact Nat.add_le_add_left (by decide) _
    · next hne =>
      obtain ⟨hqpid, i, hi, hle⟩ := h.latest pid q hq
      have hlt := (List.getElem?_eq_some_iff.mp hi).1
      refine ⟨hqpid, i, ?_, ?_⟩
      · rw [hprocesses, List.getElem?_append_left hlt, hi]
      · -- one that is out of date now would live under the identity of the new process
        have hold : i + wordBound ≠ s.processes.length := fun heq => hne <| by
          rw [← hqpid, hpid, h.pid i q hi, h.nextPid, ← heq, ProcessId.ofNat_eq_ofNat,
            Nat.add_right_comm, Nat.add_mod_right]
        omega

theorem Numbered.after (h : s.Numbered) (mv : Move) : (s.after mv).Numbered := by
  by_cases hspawn : ∃ image args mode, mv = .spawn image args mode
  · obtain ⟨image, args, mode, rfl⟩ := hspawn
    rcases move_spawn s image args mode with ⟨stop, -, hmove⟩ | ⟨c, m, hbirth, hmove⟩
    · rw [System.after, hmove]
      exact h
    · rw [System.after, hmove]
      cases hbirth with
      | begun pid index himage fits absent layout table argv argc size =>
        exact h.joined pid rfl rfl
  · have hne : ∀ image args mode, mv ≠ .spawn image args mode :=
      fun image args mode heq => hspawn ⟨image, args, mode, heq⟩
    exact h.thins (processes_after_of_ne_spawn hne) <| related_after tolerant_thins s mv
      fun image args mode heq => absurd heq (hne image args mode)

/-- **Processes are numbered in the order in which they are made**, in every system that any moves
lead to. -/
theorem Reachable.numbered {allowed : System → Move → Prop} {config : Config} {swap : Swap}
    {m : Machine} (h : Reachable allowed (ofMachine m) s)
    (hboot : Machine.boot config swap = .ok m) : s.Numbered :=
  h.invariant (numbered_ofMachine hboot) fun _ mv hn _ => hn.after mv

/-! ## Identities that are taken -/

section Spawn

variable {allowed : System → Move → Prop} {config : Config} {swap : Swap} {m : Machine}
  {image : Executable} {args : List Bytes} {mode : PagingMode}

/-- **When a new process takes an identity that is in use.** In every system that any moves lead to
from a machine that has just started, let the creation of a process begin. Who lived under its identity
until then was made 2 ^ 32 processes ago; if the process made then lives, it is replaced in the
register, and the frames and the copies on record for it are on record for the new process. -/
theorem Reachable.taken_iff (h : Reachable allowed (ofMachine m) s)
    (hboot : Machine.boot config swap = .ok m)
    (hp : (s.after (.spawn image args mode)).processes = s.processes ++ [p]) :
    (∀ q, s.machine.process? p.pid = some q ↔ s.machine.Registered q ∧
      ∃ i : Nat, s.processes[i]? = some q ∧ i + wordBound = s.processes.length) ∧
    (s.after (.spawn image args mode)).machine.process? p.pid = some p ∧
    (∀ f, (s.after (.spawn image args mode)).machine.ownerOf? f = s.machine.ownerOf? f) ∧
    ∀ key, (s.after (.spawn image args mode)).machine.kernel.swap.copy? key =
      s.machine.kernel.swap.copy? key := by
  rcases move_spawn s image args mode with ⟨stop, -, hmove⟩ | ⟨c, m', hbirth, hmove⟩
  · rw [after, hmove] at hp
    exact absurd (congrArg List.length hp) (by simp)
  · rw [after, hmove] at hp ⊢
    cases hbirth with
    | begun pid index himage fits absent layout table argv argc size =>
      cases List.append_cancel_left hp
      refine ⟨fun q => ?_, (process?_joined ..).trans (if_pos rfl), fun f => rfl, fun key => rfl⟩
      rw [pid]
      exact (h.numbered hboot).process?_nextPid

/-- **Identities are unique** as long as fewer than 2 ^ 32 processes were made. -/
theorem Reachable.not_taken (h : Reachable allowed (ofMachine m) s)
    (hboot : Machine.boot config swap = .ok m) (hfew : s.processes.length < wordBound)
    (hp : (s.after (.spawn image args mode)).processes = s.processes ++ [p]) :
    s.machine.process? p.pid = none := by
  refine Option.eq_none_iff_forall_ne_some.mpr fun q hq => ?_
  obtain ⟨-, i, -, heq⟩ := ((h.taken_iff hboot hp).1 q).mp hq
  omega

end Spawn

/-! ## Identities are taken -/

/-- One process more, of the smallest size. -/
def someone : Move := .spawn (.zeroes "someone" 1) [] .demand

/-- After one process more was made: it lives under the next identity and has a page table of its own,
nobody else's entry in the register has changed, and no call is left. -/
structure Grown (s s' : System) (p : UserProcess) : Prop where
  pid : p.pid = s.machine.kernel.nextPid
  index : p.table.index = s.machine.tables.size
  tables : s'.machine.tables.size = s.machine.tables.size + 1
  processes : s'.processes = s.processes ++ [p]
  calls : s'.calls = []
  config : s'.machine.kernel.config = s.machine.kernel.config
  registry : ∀ pid, s'.machine.process? pid = if pid = p.pid then some p else s.machine.process? pid

theorem exists_grown (hcalls : s.calls = []) (hconfig : s.machine.kernel.config.stackPages = 1) :
    ∃ p, (s.after someone).processes = s.processes ++ [p] ∧
      s.Grown ((s.after someone).after (.step 0)) p := by
  rcases move_spawn s (.zeroes "someone" 1) [] .demand with
    ⟨stop, hrefused, -⟩ | ⟨c, m, hbirth, hmove⟩
  · rcases hrefused with hlayout | ⟨-, hsize, -⟩
    · rw [hconfig] at hlayout
      cases hlayout
    · cases hsize
  · cases hbirth with
    | @begun p t pid index himage fits absent layout table argv argc size =>
      have hsteps : ArgumentBlock.steps p.argv [] = [] := by
        simp only [ArgumentBlock.steps, List.length_nil, Nat.zero_mul, VirtualAddress.add?_zero,
          ArgumentBlock.stepsFrom]
      rw [hsteps, hcalls] at hmove
      have hstep : Call.step ⟨p, .spawn, [.load .demand], .seeking⟩ (s.machine.joined p t) =
          (.finished (.returned (.spawned p)),
            ((s.machine.joined p t).noted (.leftToDemand p.pid p.numPages)).noted
              (.spawned p.pid p.numPages p.mode p.entryPoint p.argv)) := by
        simp only [Call.step, Call.proceed, Call.begin, Call.beginLoad, Call.endTask, Call.conclude,
          UserProcess.stackPointer?, argv, EStateM.run_bind, Action.run_note, EStateM.run_pure]
      have hafter : s.after someone = ⟨s.machine.joined p t, s.processes ++ [p],
          [⟨p, .spawn, [.load .demand], .seeking⟩], s.held⟩ := by
        rw [someone, after, hmove]
        rfl
      refine ⟨p, by rw [hafter], ?_⟩
      rw [hafter]
      simp only [after, move, stepCall, List.getElem?_cons_zero, hstep, keep]
      exact ⟨pid, index, Array.size_push t, rfl, rfl, rfl, process?_joined s.machine p t⟩

/-- A system with one frame, in which `n` processes were made, one after the other. -/
def lineage : Nat → System
  | 0 => ofMachine (fresh 1)
  | n + 1 => ((lineage n).after someone).after (.step 0)

/-- The lineage grows by one process in every round. -/
theorem lineage_grows (n : Nat) : Reachable (fun _ _ => True) (ofMachine (fresh 1)) (lineage n) ∧
    (lineage n).processes.length = n ∧ (lineage n).machine.tables.size = n ∧
    ∃ p, ((lineage n).after someone).processes = (lineage n).processes ++ [p] ∧
      (lineage n).Grown (lineage (n + 1)) p := by
  suffices h : Reachable (fun _ _ => True) (ofMachine (fresh 1)) (lineage n) ∧
      (lineage n).processes.length = n ∧ (lineage n).machine.tables.size = n ∧ (lineage n).calls = [] ∧
      (lineage n).machine.kernel.config.stackPages = 1 by
    obtain ⟨hreach, hlength, htables, hcalls, hconfig⟩ := h
    exact ⟨hreach, hlength, htables, exists_grown hcalls hconfig⟩
  induction n with
  | zero => exact ⟨.start, rfl, rfl, rfl, rfl⟩
  | succ n ih =>
    obtain ⟨hreach, hlength, htables, hcalls, hconfig⟩ := ih
    obtain ⟨p, -, hgrown⟩ := exists_grown hcalls hconfig
    refine ⟨(hreach.move _ trivial).move _ trivial, ?_, ?_, hgrown.calls, hgrown.config ▸ hconfig⟩
    · rw [lineage, hgrown.processes, List.length_append, hlength]
      rfl
    · rw [lineage, hgrown.tables, htables]

/-- The first process lives until there are as many as there are identities. -/
theorem registered_lineage (n : Nat) (hn : n + 1 ≤ wordBound) :
    ∃ p, (lineage (n + 1)).processes[0]? = some p ∧ p.table.index = 0 ∧
      (lineage (n + 1)).machine.Registered p := by
  induction n with
  | zero =>
    obtain ⟨-, -, htables, p, -, hgrown⟩ := lineage_grows 0
    refine ⟨p, ?_, hgrown.index.trans htables, ?_⟩
    · rw [hgrown.processes]
      rfl
    · rw [Registered, hgrown.registry, if_pos rfl]
  | succ n ih =>
    obtain ⟨p, hp, hindex, hreg⟩ := ih (by omega)
    obtain ⟨hreach, hlength, -, q, -, hgrown⟩ := lineage_grows (n + 1)
    have hnumbered := hreach.numbered (show boot ⟨1, 1, true⟩ (.empty none) = .ok (fresh 1) from rfl)
    refine ⟨p, ?_, hindex, ?_⟩
    · rw [hgrown.processes, List.getElem?_append_left (by omega), hp]
    · rw [Registered, hgrown.registry, if_neg, hreg]
      rw [hnumbered.pid 0 p hp, hgrown.pid, hnumbered.nextPid, hlength, ProcessId.ofNat_eq_ofNat]
      simp only [wordBound] at *
      omega

/-- **Identities are not unique in runs of any length.** There is a system in which the process that
was made first still lives, no call is in flight, and the next process takes the identity of the first
one and drives it out of the register. -/
theorem exists_taken : ∃ s p q, Reachable (fun _ _ => True) (ofMachine (fresh 1)) s ∧ s.calls = [] ∧
    s.processes[0]? = some p ∧ s.machine.Registered p ∧
    (s.after someone).processes = s.processes ++ [q] ∧ q.pid = p.pid ∧
    (s.after someone).machine.Registered q ∧ ¬ (s.after someone).machine.Registered p := by
  obtain ⟨n, hn⟩ : ∃ n, n + 1 = wordBound := ⟨wordBound - 1, rfl⟩
  obtain ⟨p, hp, hindex, hreg⟩ := registered_lineage n (Nat.le_of_eq hn)
  obtain ⟨-, -, -, r, -, hlast⟩ := lineage_grows n
  obtain ⟨hreach, hlength, htables, q, hprocesses, hgrown⟩ := lineage_grows (n + 1)
  have hboot : boot ⟨1, 1, true⟩ (.empty none) = .ok (fresh 1) := rfl
  have hnumbered := hreach.numbered hboot
  obtain ⟨-, hq, -, -⟩ := hreach.taken_iff hboot hprocesses
  have hpid : q.pid = p.pid := by
    rw [hnumbered.pid 0 p hp, hgrown.pid, hnumbered.nextPid, hlength, hn,
      ProcessId.ofNat_eq_ofNat, Nat.add_comm, Nat.add_mod_right]
  refine ⟨_, p, q, hreach, hlast.calls, hp, hreg, hprocesses, hpid, hq, fun hp' => ?_⟩
  -- the two have the same identity, but not the same page table
  rw [Registered, ← hpid] at hp'
  cases hq.symm.trans hp'
  rw [hgrown.index, htables] at hindex
  exact Nat.succ_ne_zero n hindex

end System

end DemandPaging
