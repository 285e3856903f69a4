import DemandPaging.Proofs.Turns

/-!
# Calls from their start to their end

A call goes on among other moves until it ends. `System.CompletesAmid` is the history of one call, in
which the other moves are all of a given kind, and `CompletesAmid.follow` takes a property of the call
from its start to its last step. `System.Completes` is the history in which the other moves spare some
of the processes: they are neither torn down nor written to.
-/

namespace DemandPaging

open Machine

namespace System

variable {s s' : System} {loose : List FrameNumber} {broken : List ProcessId} {mv : Move}
  {allowed : System → Move → Prop} {spared : UserProcess → Prop} {i : Nat} {c : Call} {o : Outcome}

/-- The move does not tear the process down and does not write to it. -/
structure Leaves (s : System) (mv : Move) (q : UserProcess) : Prop where
  torn : s.torn? mv ≠ some q.pid
  target : ∀ page, s.target? mv ≠ some (q.pid, page)

/-- Where call number `i` is after a move of somebody else. The calls behind one that ends move up. -/
def place (s : System) (i : Nat) : Move → Nat
  | .step j => if j < i ∧ (s.move (.step j)).1.isSome then i - 1 else i
  | _ => i

/-- Call number `i` of `s` goes on until it ends with the outcome `o` in `s'`. In between there are
other moves that are `allowed`. -/
inductive CompletesAmid (allowed : System → Move → Prop) : System → Nat → Outcome → System → Prop
  | ends {s : System} {i : Nat} {o : Outcome} (outcome : (s.move (.step i)).1 = some o) :
    CompletesAmid allowed s i o (s.after (.step i))
  | steps {s s' : System} {i : Nat} {o : Outcome} (outcome : (s.move (.step i)).1 = none)
    (rest : CompletesAmid allowed (s.after (.step i)) i o s') : CompletesAmid allowed s i o s'
  | others {s s' : System} {i : Nat} {o : Outcome} (mv : Move) (other : mv ≠ .step i)
    (mem : allowed s mv) (rest : CompletesAmid allowed (s.after mv) (s.place i mv) o s') :
    CompletesAmid allowed s i o s'

/-- Call number `i` of `s` goes on until it ends with the outcome `o` in `s'`. In between there are
other moves, and those spare the processes that are to be `spared`. -/
inductive Completes (spared : UserProcess → Prop) : System → Nat → Outcome → System → Prop
  | ends {s : System} {i : Nat} {o : Outcome} (outcome : (s.move (.step i)).1 = some o) :
    Completes spared s i o (s.after (.step i))
  | steps {s s' : System} {i : Nat} {o : Outcome} (outcome : (s.move (.step i)).1 = none)
    (rest : Completes spared (s.after (.step i)) i o s') : Completes spared s i o s'
  | others {s s' : System} {i : Nat} {o : Outcome} (mv : Move) (other : mv ≠ .step i)
    (room : s.HasRoom mv) (leaves : ∀ q, spared q → s.Leaves mv q)
    (rest : Completes spared (s.after mv) (s.place i mv) o s') : Completes spared s i o s'

/-- There is room for the move, and it spares the processes that are to be `spared`. -/
def Sparing (spared : UserProcess → Prop) (s : System) (mv : Move) : Prop :=
  s.HasRoom mv ∧ ∀ q, spared q → s.Leaves mv q

theorem completes_iff_amid : Completes spared s i o s' ↔ CompletesAmid (Sparing spared) s i o s' := by
  constructor
  · intro h
    induction h with
    | ends outcome => exact .ends outcome
    | steps outcome rest ih => exact .steps outcome ih
    | others mv other room leaves rest ih => exact .others mv other ⟨room, leaves⟩ ih
  · intro h
    induction h with
    | ends outcome => exact .ends outcome
    | steps outcome rest ih => exact .steps outcome ih
    | others mv other mem rest ih => exact .others mv other mem.1 mem.2 ih

/-- A step after which its call goes on has no outcome. -/
theorem outcome_of_ongoing {c' : Call} (hc : s.calls[i]? = some c)
    (h : (c.step s.machine).1 = .ongoing c') : (s.move (.step i)).1 = none := by
  cases ho : (s.move (.step i)).1 with
  | none => rfl
  | some o => cases h.symm.trans (finished_of_outcome hc ho)

/-! ## Other moves -/

/-- A spared process lives on, and its pages have the content they had. -/
theorem Leaves.keeps {q : UserProcess} (h : s.Leaves mv q) (hs : s.Sound loose broken)
    (hroom : s.HasRoom mv) (hq : s.machine.Registered q) :
    (s.after mv).machine.Registered q ∧
      ∀ page, (s.after mv).machine.content? q page = s.machine.content? q page := by
  have hspares := (moved hs hroom).spares
  exact ⟨hspares.registered q hq h.torn, fun page => hspares.content q page hq h.torn (h.target page)⟩

/-- The calls in front of a call that is made stay where they are. -/
theorem calls_after_of_ne_step (hmv : ∀ j, mv ≠ .step j) (hc : s.calls[i]? = some c) :
    (s.after mv).calls[i]? = some c := by
  have hlt := (List.getElem?_eq_some_iff.mp hc).1
  cases mv with
  | spawn image args mode =>
    rcases move_spawn s image args mode with ⟨stop, -, hmove⟩ | ⟨c', m, -, hmove⟩ <;>
    rw [after, hmove]
    · exact hc
    · exact (List.getElem?_append_left hlt).trans hc
  | request k r =>
    simp only [after, move]
    split
    · exact hc
    · exact (List.getElem?_append_left hlt).trans hc
  | step j => exact absurd rfl (hmv j)
  | drop k => rw [(kept_drop s k).2, hc]
  | release k => rw [(kept_release s k).2, hc]
  | spoil unreadable => exact hc

/-- A move of somebody else leaves a call as it is. -/
theorem calls_place (hmv : mv ≠ .step i) (hc : s.calls[i]? = some c) :
    (s.after mv).calls[s.place i mv]? = some c := by
  by_cases hstep : ∃ j, mv = .step j
  · obtain ⟨j, rfl⟩ := hstep
    have hne : j ≠ i := fun heq => hmv (heq ▸ rfl)
    cases hj : s.calls[j]? with
    | none =>
      have hmove : s.move (.step j) = (none, s) := by simp only [move, stepCall, hj]
      rw [place, after, hmove, if_neg (fun h => Bool.false_ne_true h.2)]
      exact hc
    | some cj =>
      rcases calls_after_step hj with ⟨c', hongoing, hcalls⟩ | ⟨o, hfinished, hcalls⟩
      · rw [place, outcome_of_ongoing hj hongoing, if_neg (fun h => Bool.false_ne_true h.2), hcalls,
          List.getElem?_set_ne hne, hc]
      · rw [place, outcome_step hj hfinished, hcalls]
        by_cases hlt : j < i
        · have hboth : j < i ∧ (some o).isSome = true := ⟨hlt, rfl⟩
          rw [if_pos hboth, List.getElem?_eraseIdx_of_ge (Nat.le_sub_one_of_lt hlt),
            Nat.sub_add_cancel (Nat.one_le_of_lt hlt), hc]
        · rw [if_neg (mt And.left hlt),
            List.getElem?_eraseIdx_of_lt (Nat.lt_of_le_of_ne (Nat.not_lt.mp hlt) hne.symm), hc]
  · have hne : ∀ j, mv ≠ .step j := fun j heq => hstep ⟨j, heq⟩
    have hplace : s.place i mv = i := by
      cases mv with
      | step j => exact absurd rfl (hne j)
      | _ => rfl
    rw [hplace]
    exact calls_after_of_ne_step hne hc

/-! ## Histories of calls -/

/-- A step without an outcome leaves the call in flight. -/
theorem ongoing_of_outcome (hc : s.calls[i]? = some c) (ho : (s.move (.step i)).1 = none) :
    ∃ c', (c.step s.machine).1 = .ongoing c' ∧ (s.after (.step i)).calls[i]? = some c' := by
  rcases calls_after_step hc with ⟨c', hongoing, hcalls⟩ | ⟨o, hfinished, -⟩
  · refine ⟨c', hongoing, ?_⟩
    rw [hcalls, List.getElem?_set_self (List.getElem?_eq_some_iff.mp hc).1]
  · cases ho.symm.trans (outcome_step hc hfinished)

/-- **A call is followed to its last step.** What other moves keep, and steps of the call, holds
before the step that ends it. -/
theorem CompletesAmid.follow {P : Machine → Call → Prop} (h : CompletesAmid allowed s i o s')
    (hroom : ∀ t mv, allowed t mv → t.HasRoom mv) (hs : s.Sound loose broken)
    (hc : s.calls[i]? = some c) (hP : P s.machine c)
    (hothers : ∀ (t : System) (mv : Move) loose broken c, t.Sound loose broken → allowed t mv →
      P t.machine c → P (t.after mv).machine c)
    (hsteps : ∀ (t : System) (j : Nat) loose broken (c c' : Call), t.Sound loose broken →
      t.calls[j]? = some c → P t.machine c → (c.step t.machine).1 = .ongoing c' →
      P (c.step t.machine).2 c') :
    ∃ (t : System) (j : Nat) (loose : List FrameNumber) (broken : List ProcessId) (c : Call),
      t.Sound loose broken ∧ t.calls[j]? = some c ∧ P t.machine c ∧
      (c.step t.machine).1 = .finished o ∧ s' = t.after (.step j) := by
  induction h generalizing loose broken c with
  | @ends s i o outcome =>
    exact ⟨s, i, loose, broken, c, hs, hc, hP, finished_of_outcome hc outcome, rfl⟩
  | @steps s s' i o outcome rest ih =>
    obtain ⟨c', hongoing, hc'⟩ := ongoing_of_outcome hc outcome
    obtain ⟨loose', hs'⟩ := (moved hs (show s.HasRoom (.step i) from trivial)).sound
    refine ih hs' hc' ?_
    rw [machine_after_step hc]
    exact hsteps s i loose broken c c' hs hc hP hongoing
  | @others s s' i o mv other mem rest ih =>
    obtain ⟨loose', hs'⟩ := (moved hs (hroom s mv mem)).sound
    exact ih hs' (calls_place other hc) (hothers s mv loose broken c hs mem hP)

/-- A call that completes leads to a reachable system. -/
theorem CompletesAmid.reachable {start : System} (h : CompletesAmid allowed s i o s')
    (hroom : ∀ t mv, allowed t mv → t.HasRoom mv) (hs : Reachable HasRoom start s) :
    Reachable HasRoom start s' := by
  induction h with
  | ends outcome => exact hs.move _ trivial
  | steps outcome rest ih => exact ih (hs.move _ trivial)
  | others mv other mem rest ih => exact ih (hs.move mv (hroom _ mv mem))

/-- A call that runs to its end while nothing else happens completes. -/
theorem exists_completes_of_runFor {n : Nat} {m : Machine} (hc : s.calls[i]? = some c)
    (h : c.runFor n s.machine = (.finished o, m)) :
    ∃ s', CompletesAmid allowed s i o s' ∧ s'.machine = m := by
  induction n generalizing s c with
  | zero => cases h
  | succ n ih =>
    have hmachine := machine_after_step hc
    rcases calls_after_step hc with ⟨c', hongoing, hcalls⟩ | ⟨o', hfinished, -⟩
    · have hc' : (s.after (.step i)).calls[i]? = some c' := by
        rw [hcalls, List.getElem?_set_self (List.getElem?_eq_some_iff.mp hc).1]
      have hstep : c.step s.machine = (.ongoing c', (s.after (.step i)).machine) :=
        Prod.ext hongoing hmachine.symm
      rw [Call.runFor, hstep] at h
      dsimp only at h
      split at h
      · cases h
      · obtain ⟨s', hcompletes, hm⟩ := ih hc' h
        exact ⟨s', .steps (outcome_of_ongoing hc hongoing) hcompletes, hm⟩
    · have hstep : c.step s.machine = (.finished o', (s.after (.step i)).machine) :=
        Prod.ext hfinished hmachine.symm
      rw [Call.runFor, hstep] at h
      cases h
      exact ⟨_, .ends (outcome_step hc hfinished), rfl⟩

/-! ## Requests -/

/-- Process number `k` of `s` makes the request, and the call that serves it ends with the outcome
`o` in `s'`. In between there are other moves that are `allowed`. -/
def ServesAmid (allowed : System → Move → Prop) (s : System) (k : Nat) (r : Request) (o : Outcome)
    (s' : System) : Prop :=
  CompletesAmid allowed (s.after (.request k r)) s.calls.length o s'

/-- Process number `k` of `s` makes the request, and the call that serves it ends with the outcome
`o` in `s'`. In between other moves spare the processes that are to be `spared`. -/
def Serves (spared : UserProcess → Prop) (s : System) (k : Nat) (r : Request) (o : Outcome)
    (s' : System) : Prop :=
  Completes spared (s.after (.request k r)) s.calls.length o s'

theorem serves_iff_amid {k : Nat} {r : Request} :
    Serves spared s k r o s' ↔ ServesAmid (Sparing spared) s k r o s' := completes_iff_amid

/-- A request adds its call. -/
theorem after_request {k : Nat} {p : UserProcess} (hk : s.processes[k]? = some p) (r : Request) :
    s.after (.request k r) = { s with calls := s.calls ++ [r.toCall p] } := by
  simp only [after, move, hk]

/-- A request is served if its call runs to its end while nothing else happens. -/
theorem exists_serves_of_run {k : Nat} {p : UserProcess} {r : Request} {m : Machine}
    (hk : s.processes[k]? = some p) (h : (r.toCall p).run s.machine = (.finished o, m)) :
    ∃ s', ServesAmid allowed s k r o s' ∧ s'.machine = m := by
  unfold ServesAmid
  rw [after_request hk]
  exact exists_completes_of_runFor List.getElem?_concat_length h

end System

end DemandPaging
