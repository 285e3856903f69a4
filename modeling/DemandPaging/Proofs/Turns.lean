import DemandPaging.Proofs.Invariant

/-!
# Turns

A move of a sound system does one of three things to its machine (`System.Turn`): it is orderly, or
it tears a process down in an orderly way, or it makes a new process. Facts about the whole life of
a process are proved case by case along these three, and `System.Reachable.invariant_of_sound`
carries them along every run.

The first such facts are about processes that do not live any more. What a dead process has it may
lose but never get (`Machine.Fades`), and the frames that it has are all on record for it
(`System.Backed`).
-/

namespace DemandPaging

open Machine

namespace Machine

/-- Nothing in pool and store belongs to the process `pid`. -/
structure Cleared (m : Machine) (pid : ProcessId) : Prop where
  unowned : ∀ f page, m.ownerOf? f ≠ some (pid, page)
  uncopied : ∀ page, m.kernel.swap.copy? (pid, page) = none

/-- From `m` to `m'` the process `p`, which is dead, got no frame, no copy and no resident page, and
the frames that it has for its resident pages stay its own. -/
structure Fades (m m' : Machine) (p : UserProcess) : Prop where
  dead : m'.process? p.pid = none
  owners : ∀ f page, m'.ownerOf? f = some (p.pid, page) → m.ownerOf? f = some (p.pid, page)
  copies : ∀ page, m.kernel.swap.copy? (p.pid, page) = none →
    m'.kernel.swap.copy? (p.pid, page) = none
  stays : ∀ page f, (m'.table p).translate? page = some f →
    (m.table p).translate? page = some f ∧
      (m.ownerOf? f = some (p.pid, page) → m'.ownerOf? f = some (p.pid, page))

variable {m m' : Machine} {l : Ledger} {p : UserProcess}

/-- An orderly change gives nothing to the dead. -/
theorem Orderly.fades {ps : List UserProcess} {target : Option (ProcessId × PageNumber)}
    (h : Orderly m m' ps target) (hp : p ∈ ps) (hdead : m.process? p.pid = none) :
    m.Fades m' p where
  dead := (h.registry _).trans hdead
  owners f page ho := (h.owners f p.pid page ho).resolve_right (· hdead)
  copies page hnone := by
    by_contra hcopy
    rcases h.copies (p.pid, page) hcopy with hold | ⟨q, hq, hqp, -⟩
    · exact hold hnone
    · have hq' : m.process? q.pid = some q := hq
      rw [hqp, hdead] at hq'
      contradiction
  stays page f ht := h.stays p hp hdead page f ht

/-- A process that comes takes nothing from the dead, nor gives them anything. -/
theorem Fades.joined (h : m.Sound l) (hroom : l.processes.length + 1 < wordBound)
    {q : UserProcess} (hpid : q.pid = m.kernel.nextPid) (t : PageTable) (hp : p ∈ l.processes)
    (hdead : m.process? p.pid = none) : m.Fades (m.joined q t) p where
  dead := by
    rw [process?_joined, if_neg, hdead]
    exact fun heq => h.census.pid_ne_nextPid hroom hp (heq.trans hpid)
  owners _ _ ho := ho
  copies _ hnone := hnone
  stays page f ht := by
    rw [table_joined_of_mem h hp] at ht
    exact ⟨ht, fun ho => ho⟩

/-- A process that was made and has no entry in the register is the one that lives under its
identity, or nobody lives there. -/
theorem Census.dead_or_registered {ps : List UserProcess} (h : m.Census ps) (hp : p ∈ ps) :
    m.process? p.pid = none ∨ m.Registered p := by
  cases hq : m.process? p.pid with
  | none => exact Or.inl rfl
  | some q =>
    obtain ⟨hqp, hmem⟩ := h.registered _ q hq
    obtain rfl := h.eq_of_pid hmem hp hqp
    exact Or.inr hq

end Machine

/-! ## Steps -/

namespace Call

variable {m : Machine} {l : Ledger} {c : Call} {x : Progress × Machine}

/-- **A step that tears nothing down is orderly.** -/
theorem Stepped.orderly (hs : Stepped m l c x) (h : m.Sound l) (htorn : c.torn? = none) :
    Orderly m x.2 l.processes c.target? := by
  have hmem := fun q (hq : m.Registered q) => h.census.mem hq
  cases hs with
  | asleep stage parked => exact (Orderly.refl m _).with_target _
  | quiet stage quiet alike waiters => exact (Orderly.alike alike _).with_target _
  | @attempt m₁ page kind r ready wanted resolution run =>
    have hready : Orderly m m₁ l.processes none := .alike ready.alike _
    have hattempt : Orderly m (c.afterSeek r).2 l.processes none := by
      cases resolution with
      | pinned registered sound keeps info idle_le le_idle waiters orderly =>
        exact hready.trans orderly hmem
      | queued idle alike waiters => exact hready.trans (.alike alike _) hmem
      | failed sound keeps idle waiters orderly failure => exact hready.trans orderly hmem
      | stuck image sound keeps idle waiters orderly => exact hready.trans orderly hmem
    exact hattempt.with_target _
  | unpinned frame info pins writing valid continues =>
    exact (Orderly.dropPin info _).with_target _
  | kept stage wanted writing => exact (Orderly.refl m _).with_target _
  | @copied f copy copy' piece rest m' stage tasks turn copied valid run =>
    refine copied.orderly c.target? fun hw => ?_
    simp only [target?, writing?, stage, tasks, hw, turn, Option.map_some]
  | undone stage departure =>
    rw [torn?, stage] at htorn
    contradiction

/-- A call without a frame writes nothing. -/
theorem writing?_of_frame? (h : c.frame? = none) : c.writing? = none := by
  unfold writing?
  split
  · next stage _ =>
    rw [frame?, stage] at h
    contradiction
  · rfl

/-- What a call that goes on has become: it has the tasks that it had or touches pages, or a piece
of a copy is done. -/
theorem Stepped.continues {c' : Call} {m' : Machine} (hs : Stepped m l c (.ongoing c', m'))
    (hv : c.Valid) : c.Continues c' ∧ c.writing? = none ∨ ∃ f copy copy' piece rest,
      c.stage = .holding f ∧ c.tasks = .copy copy :: rest ∧
      copy.turn c.process.layout = .piece piece ∧
      (Action.transfer c.process copy piece f).run m = .ok copy' m' ∧
      c' = { c with tasks := .copy copy' :: rest, stage := .leaving f } := by
  generalize hx : (Progress.ongoing c', m') = x at hs
  cases hs with
  | asleep stage parked =>
    cases hx
    refine Or.inl ⟨⟨rfl, rfl, .same, fun e hundo => ?_⟩, writing?_of_frame? ?_⟩
    · rw [stage] at hundo
      contradiction
    · rw [frame?, stage]
  | quiet stage quiet alike waiters =>
    cases hx
    exact Or.inl ⟨quiet.1, writing?_of_frame? (frame?_of_seeking stage)⟩
  | @attempt m₁ page kind r ready wanted resolution run =>
    refine Or.inl ⟨?_, writing?_of_frame? ready.frame?⟩
    rcases r with ⟨grant, m₂⟩ | ⟨stop, m₂⟩
    · cases grant <;>
      · cases hx
        exact ⟨rfl, rfl, .same, fun _ hundo => (by cases hundo)⟩
    · have hquiet := quiet_afterFailure hv stop
      rw [← (Prod.mk.inj hx).1] at hquiet
      exact hquiet.1
  | unpinned frame info pins writing valid continues =>
    cases hx
    exact Or.inl ⟨continues, writing⟩
  | kept stage wanted writing => cases hx
  | @copied f copy copy' piece rest m' stage tasks turn copied valid run =>
    cases hx
    exact Or.inr ⟨f, copy, copy', piece, rest, stage, tasks, turn, run, rfl⟩
  | @undone e r stage departure => cases departure <;> cases hx

/-- A call that goes on has the same purpose. -/
theorem Stepped.purpose {c' : Call} {m' : Machine} (hs : Stepped m l c (.ongoing c', m'))
    (hv : c.Valid) : c'.purpose = c.purpose := by
  rcases hs.continues hv with ⟨hgoes, -⟩ | ⟨f, copy, copy', piece, rest, -, -, -, -, rfl⟩
  · exact hgoes.purpose
  · rfl

/-- A teardown is the end of a call, and not a good one. -/
theorem Stepped.of_torn (hs : Stepped m l c x) (h : c.torn? ≠ none) :
    (∃ e, x.1 = .finished (.failed e none)) ∨ ∃ v, x.1 = .finished (.violated v) := by
  cases hs with
  | asleep stage parked => exact absurd (by rw [torn?, stage]) h
  | quiet stage quiet alike waiters => exact absurd (torn?_of_seeking stage) h
  | attempt ready wanted resolution run => exact absurd ready.torn? h
  | unpinned frame info pins writing valid continues => exact absurd (torn?_of_frame frame) h
  | kept stage wanted writing => exact absurd (by rw [torn?, stage]) h
  | copied stage tasks turn copied valid run => exact absurd (by rw [torn?, stage]) h
  | undone stage departure =>
    cases departure with
    | gone sound keeps idle waiters orderly unowned uncopied => exact Or.inl ⟨_, rfl⟩
    | stopped sound keeps idle waiters orderly clings => exact Or.inr ⟨_, rfl⟩

/-- A call that goes on has torn nothing down. -/
theorem Stepped.torn?_of_ongoing {c' : Call} {m' : Machine}
    (hs : Stepped m l c (.ongoing c', m')) : c.torn? = none := by
  by_contra h
  rcases hs.of_torn h with ⟨e, heq⟩ | ⟨v, heq⟩ <;> cases heq

/-- Neither has a call that returns a value. -/
theorem Stepped.torn?_of_returned {a : Answer} {m' : Machine}
    (hs : Stepped m l c (.finished (.returned a), m')) : c.torn? = none := by
  by_contra h
  rcases hs.of_torn h with ⟨e, heq⟩ | ⟨v, heq⟩ <;> cases heq

end Call

namespace System

variable {s s' : System} {loose : List FrameNumber} {broken : List ProcessId} {mv : Move}
  {p : UserProcess}

/-! ## Moves -/

/-- What a move does to the processes and to the machine. -/
inductive Turn (s : System) (mv : Move) (s' : System) : Prop
  /-- Processes neither come nor go. -/
  | went (processes : s'.processes = s.processes) (torn : s.torn? mv = none)
      (orderly : Orderly s.machine s'.machine s.processes (s.target? mv))
  /-- A process is torn down. Unless the teardown stops half way, nothing is left of it. -/
  | tore {p : UserProcess} (processes : s'.processes = s.processes) (mem : p ∈ s.processes)
      (torn : s.torn? mv = some p.pid)
      (orderly : Orderly (s.machine.without p.pid) s'.machine s.processes none)
      (cleared : (∀ v, (s.move mv).1 ≠ some (.violated v)) → s'.machine.Cleared p.pid)
      (stopped : ∀ v, (s.move mv).1 = some (.violated v) → s.machine.Clings s'.machine p v)
  /-- A process is made. -/
  | joined {p : UserProcess} {t : PageTable} {stackPages : Nat}
      (processes : s'.processes = s.processes ++ [p]) (torn : s.torn? mv = none)
      (machine : s'.machine = s.machine.joined p t) (pid : p.pid = s.machine.kernel.nextPid)
      (index : p.table.index = s.machine.tables.size)
      (room : s.processes.length + 1 < wordBound)
      (layout : Layout.ofSections p.image.sections stackPages = .ok p.layout)
      (table : UserProcess.initialTable p.image p.layout = .ok t)
      (argv : p.layout.stackTop? = some p.argv)

/-- A move that touches nothing but calls and held pages. -/
theorem Turn.of_machine (hprocesses : s'.processes = s.processes) (htorn : s.torn? mv = none)
    (hmachine : s'.machine = s.machine) : Turn s mv s' :=
  .went hprocesses htorn (by rw [hmachine]; exact (Orderly.refl s.machine _).with_target _)

/-- A step ends a call, or it has no outcome. -/
theorem outcome_step {i : Nat} {c : Call} (hc : s.calls[i]? = some c) {o : Outcome}
    (ho : (c.step s.machine).1 = .finished o) : (s.move (.step i)).1 = some o := by
  simp only [move, stepCall, hc]
  split
  · next heq =>
    rw [heq] at ho
    contradiction
  · next heq =>
    rw [heq] at ho
    cases ho
    rfl

/-- Only a step that ends its call has an outcome. -/
theorem finished_of_outcome {i : Nat} {c : Call} (hc : s.calls[i]? = some c) {o : Outcome}
    (ho : (s.move (.step i)).1 = some o) : (c.step s.machine).1 = .finished o := by
  simp only [move, stepCall, hc] at ho
  split at ho
  · cases ho
  · next heq =>
    cases ho
    rw [heq]

theorem turn_spawn {image : Executable} {args : List Bytes} {mode : PagingMode}
    (hroom : s.HasRoom (.spawn image args mode)) :
    Turn s (.spawn image args mode) (s.after (.spawn image args mode)) := by
  rcases move_spawn s image args mode with ⟨stop, -, hmove⟩ | ⟨c, m, hbirth, hmove⟩
  · rw [after, hmove]
    exact .of_machine rfl rfl rfl
  · rw [after, hmove]
    cases hbirth with
    | begun pid index himage fits absent layout table argv argc size =>
      rw [← himage] at layout table
      exact .joined rfl rfl rfl pid index hroom layout table argv

theorem turn_step (h : s.Sound loose broken) (i : Nat) :
    Turn s (.step i) (s.after (.step i)) := by
  have hprocesses := processes_after_step s i
  cases hc : s.calls[i]? with
  | none =>
    refine .of_machine hprocesses ?_ ?_
    · rw [torn?, hc]
      rfl
    · simp only [after, move, stepCall, hc]
  | some c =>
    have hspec := stepped h hc
    have htorn := torn?_step hc
    have hmachine := machine_after_step hc
    cases hct : c.torn? with
    | none =>
      refine .went hprocesses (htorn.trans hct) ?_
      rw [hmachine, target?_step hc]
      exact hspec.orderly h.machine hct
    | some pid =>
      have houtcome := fun o => outcome_step (o := o) hc
      have hp := (h.calls c (List.mem_of_getElem? hc)).1
      generalize c.step s.machine = x at hspec hmachine houtcome
      cases hspec with
      | @undone e r stage departure =>
        have hpid : c.torn? = some c.process.pid := by rw [Call.torn?, stage]
        have hnoted : Orderly (s.machine.without c.process.pid)
            ((s.machine.noted (.spawnFailed c.process.pid e)).without c.process.pid)
            s.processes none := .alike (.noted (s.machine.without _) _) _
        have hmem := fun q (hq : (s.machine.without c.process.pid).Registered q) =>
          h.machine.census.mem (process?_of_without hq).2
        cases departure with
        | gone sound keeps idle waiters orderly unowned uncopied =>
          refine .tore hprocesses hp (htorn.trans hpid) ?_ (fun _ => ?_) fun v hv => ?_
          · rw [hmachine]
            exact hnoted.trans orderly hmem
          · rw [hmachine]
            exact ⟨unowned, uncopied⟩
          · rw [houtcome _ rfl] at hv
            cases hv
        | @stopped v m' sound keeps idle waiters orderly clings =>
          refine .tore hprocesses hp (htorn.trans hpid) ?_ (fun hv => ?_) fun v' hv => ?_
          · rw [hmachine]
            exact hnoted.trans orderly hmem
          · exact absurd (houtcome _ rfl) (hv v)
          · rw [houtcome _ rfl] at hv
            cases hv
            rw [hmachine]
            exact clings
      | asleep stage parked => rw [Call.torn?, stage] at hct; contradiction
      | quiet stage quiet alike waiters => rw [Call.torn?, stage] at hct; contradiction
      | attempt ready wanted resolution run => rw [ready.torn?] at hct; contradiction
      | unpinned frame info pins writing valid continues =>
        rw [Call.torn?_of_frame frame] at hct
        contradiction
      | kept stage wanted writing => rw [Call.torn?, stage] at hct; contradiction
      | copied stage tasks turn copied valid run => rw [Call.torn?, stage] at hct; contradiction

theorem turn_drop (h : s.Sound loose broken) (i : Nat) :
    Turn s (.drop i) (s.after (.drop i)) := by
  rcases move_drop h i with hmove | ⟨g, f, -, hf, -, hmove⟩
  · rw [after, hmove]
    exact .of_machine rfl rfl rfl
  · rw [after, hmove]
    exact .went rfl rfl ((Orderly.dropPin hf _).with_target _)

theorem turn_release (h : s.Sound loose broken) (i : Nat) :
    Turn s (.release i) (s.after (.release i)) := by
  rcases move_release h i with
    ⟨hp, hmove⟩ | ⟨p, m, hp, ⟨hdepart, hmove⟩ | ⟨v, hdepart, hmove⟩⟩
  · rw [after, hmove]
    refine .of_machine rfl ?_ rfl
    rw [torn?, hp]
    rfl
  · rw [after, hmove]
    cases hdepart with
    | gone sound keeps idle waiters orderly unowned uncopied =>
      refine .tore rfl (List.mem_of_getElem? hp) (torn?_release hp) orderly
        (fun _ => ⟨unowned, uncopied⟩) fun v hv => ?_
      rw [hmove] at hv
      cases hv
  · rw [after, hmove]
    cases hdepart with
    | stopped sound keeps idle waiters orderly clings =>
      refine .tore rfl (List.mem_of_getElem? hp) (torn?_release hp) orderly
        (fun hv => absurd ?_ (hv v)) fun v' hv => ?_
      · rw [hmove]
      · rw [hmove] at hv
        cases hv
        exact clings

/-- **What a move does**: it is orderly, it tears a process down, or it makes one. -/
theorem turn (h : s.Sound loose broken) (hroom : s.HasRoom mv) : Turn s mv (s.after mv) := by
  cases mv with
  | spawn image args mode => exact turn_spawn hroom
  | request i r =>
    refine .of_machine ?_ rfl ?_ <;>
    · simp only [after, move]
      split <;> rfl
  | step i => exact turn_step h i
  | drop i => exact turn_drop h i
  | release i => exact turn_release h i
  | spoil unreadable =>
    have halike : Alike s.machine (s.machine.spoiled unreadable) :=
      ⟨rfl, ⟨rfl, fun _ => rfl⟩, rfl, rfl, fun _ => rfl, rfl, rfl⟩
    exact .went rfl rfl ((Orderly.alike halike _).with_target _)

/-- A move that tears a process down does nothing else. -/
theorem Turn.of_torn (ht : Turn s mv s') {pid : ProcessId} (htorn : s.torn? mv = some pid) :
    ∃ p ∈ s.processes, p.pid = pid ∧
      Orderly (s.machine.without p.pid) s'.machine s.processes none ∧
      ((∀ v, (s.move mv).1 ≠ some (.violated v)) → s'.machine.Cleared p.pid) ∧
      ∀ v, (s.move mv).1 = some (.violated v) → s.machine.Clings s'.machine p v := by
  cases ht with
  | went processes torn orderly =>
    rw [torn] at htorn
    contradiction
  | joined processes torn machine pid index room layout table =>
    rw [torn] at htorn
    contradiction
  | @tore p processes mem torn orderly cleared stopped =>
    rw [torn, Option.some.injEq] at htorn
    exact ⟨p, mem, htorn, orderly, cleared, stopped⟩

/-- Processes never leave the list of those made. -/
theorem Turn.mem_processes (ht : Turn s mv s') (hp : p ∈ s.processes) : p ∈ s'.processes := by
  cases ht with
  | went processes torn orderly => rwa [processes]
  | tore processes mem torn orderly cleared => rwa [processes]
  | joined processes torn machine pid index room layout table =>
    rw [processes]
    exact List.mem_append_left _ hp

/-! ## Calls -/

/-- Where a call comes from that is in flight after a move. -/
inductive Descends (s : System) (mv : Move) (c' : Call) : Prop
  | stays (mem : c' ∈ s.calls)
  | steps {i : Nat} {c : Call} (mv : mv = .step i) (call : s.calls[i]? = some c)
      (step : (c.step s.machine).1 = .ongoing c')
  | requested {p : UserProcess} {r : Request} (mem : p ∈ s.processes) (call : c' = r.toCall p)
  | spawned (purpose : c'.purpose = .spawn) (stage : c'.stage = .seeking)
      (tasks : ∀ t ∈ c'.tasks, (∃ mode, t = .load mode) ∨ ∃ step : ArgumentStep, t = step.toTask)

/-- The calls after a step: one is replaced, or one is gone. -/
theorem calls_after_step {i : Nat} {c : Call} (hc : s.calls[i]? = some c) :
    (∃ c', (c.step s.machine).1 = .ongoing c' ∧ (s.after (.step i)).calls = s.calls.set i c') ∨
      ∃ o, (c.step s.machine).1 = .finished o ∧ (s.after (.step i)).calls = s.calls.eraseIdx i := by
  simp only [after, move, stepCall, hc]
  split
  · next c' m hstep => exact Or.inl ⟨c', by rw [hstep], rfl⟩
  · next o m hstep =>
    refine Or.inr ⟨o, by rw [hstep], ?_⟩
    rcases keep_cases { s with machine := m, calls := s.calls.eraseIdx i } c o with
      ⟨g, -, hkeep⟩ | ⟨-, hkeep⟩ <;> rw [hkeep]

theorem descends_spawn {image : Executable} {args : List Bytes} {mode : PagingMode} {c' : Call}
    (hc' : c' ∈ (s.after (.spawn image args mode)).calls) :
    s.Descends (.spawn image args mode) c' := by
  rcases move_spawn s image args mode with ⟨stop, -, hmove⟩ | ⟨c, m, hbirth, hmove⟩
  · rw [after, hmove] at hc'
    exact .stays hc'
  · rw [after, hmove] at hc'
    cases hbirth with
    | begun pid index himage fits absent layout table =>
      cases List.mem_append.mp hc' with
      | inl hold => exact .stays hold
      | inr hnew =>
        rw [List.mem_singleton] at hnew
        subst hnew
        refine .spawned rfl rfl fun t ht => ?_
        cases List.mem_cons.mp ht with
        | inl heq => exact Or.inl ⟨_, heq⟩
        | inr hmem =>
          obtain ⟨step, -, hstep⟩ := List.mem_map.mp hmem
          exact Or.inr ⟨step, hstep.symm⟩

theorem descends_step {i : Nat} {c' : Call} (hc' : c' ∈ (s.after (.step i)).calls) :
    s.Descends (.step i) c' := by
  cases hc : s.calls[i]? with
  | none =>
    simp only [after, move, stepCall, hc] at hc'
    exact .stays hc'
  | some c =>
    rcases calls_after_step hc with ⟨c₁, hstep, hcalls⟩ | ⟨o, -, hcalls⟩
    · rw [hcalls] at hc'
      cases List.mem_or_eq_of_mem_set hc' with
      | inl hold => exact .stays hold
      | inr hnew => exact .steps rfl hc (hnew ▸ hstep)
    · rw [hcalls] at hc'
      exact .stays (List.mem_of_mem_eraseIdx hc')

/-- **Every call was there before, or went a step, or is new.** -/
theorem descends {c' : Call} (hc' : c' ∈ (s.after mv).calls) : s.Descends mv c' := by
  cases mv with
  | spawn image args mode => exact descends_spawn hc'
  | request i r =>
    simp only [after, move] at hc'
    split at hc'
    · exact .stays hc'
    · next p hp =>
      cases List.mem_append.mp hc' with
      | inl hold => exact .stays hold
      | inr hnew => exact .requested (List.mem_of_getElem? hp) (List.mem_singleton.mp hnew)
  | step i => exact descends_step hc'
  | drop i => exact .stays ((kept_drop s i).2 ▸ hc')
  | release i => exact .stays ((kept_release s i).2 ▸ hc')
  | spoil unreadable => exact .stays hc'

/-- What a step of a call can do that goes on. -/
theorem stepped_ongoing (h : s.Sound loose broken) {i : Nat} {c c' : Call}
    (hc : s.calls[i]? = some c) (hstep : (c.step s.machine).1 = .ongoing c') :
    Call.Stepped s.machine ⟨s.processes, s.pins, loose, broken⟩ c
      (.ongoing c', (c.step s.machine).2) := by
  rw [← hstep]
  exact stepped h hc

/-! ## Runs -/

/-- Moves for which there is room lead from a sound system to a sound system. -/
theorem Reachable.sound (h : Reachable HasRoom s s') (hs : s.Sound loose broken) :
    ∃ loose broken, s'.Sound loose broken := by
  refine h.invariant (P := fun t => ∃ loose broken, t.Sound loose broken) ⟨loose, broken, hs⟩
    fun t mv ht hroom => ?_
  obtain ⟨loose', broken', ht⟩ := ht
  obtain ⟨loose'', hs''⟩ := (moved ht hroom).sound
  exact ⟨loose'', _, hs''⟩

/-- What every allowed move of a sound system keeps holds along every run of such moves from one. -/
theorem Reachable.invariant_of_room {allowed : System → Move → Prop} {P : System → Prop}
    (h : Reachable allowed s s') (hroom : ∀ t mv, allowed t mv → t.HasRoom mv)
    (hs : s.Sound loose broken) (hstart : P s)
    (hmove : ∀ t mv loose broken, t.Sound loose broken → allowed t mv → P t → P (t.after mv)) :
    P s' := by
  induction h with
  | start => exact hstart
  | move mv hreach hallowed ih =>
    obtain ⟨loose', broken', ht⟩ := (hreach.mono hroom).sound hs
    exact hmove _ mv loose' broken' ht hallowed ih

/-- There need be no more than room for each move. -/
theorem Reachable.invariant_of_sound {P : System → Prop} (h : Reachable HasRoom s s')
    (hs : s.Sound loose broken) (hstart : P s)
    (hmove : ∀ t mv loose broken, t.Sound loose broken → t.HasRoom mv → P t → P (t.after mv)) :
    P s' :=
  h.invariant_of_room (fun _ _ hroom => hroom) hs hstart hmove

/-! ## The dead -/

/-- **Whoever is dead stays dead and gets nothing.** -/
theorem Turn.fades (ht : Turn s mv s') (h : s.Sound loose broken) (hp : p ∈ s.processes)
    (hdead : s.machine.process? p.pid = none) : s.machine.Fades s'.machine p := by
  cases ht with
  | went processes torn orderly => exact orderly.fades hp hdead
  | @tore q processes mem torn orderly cleared =>
    have hdead' : (s.machine.without q.pid).process? p.pid = none := by
      rw [process?_without, hdead, ite_self]
    have hfades := orderly.fades hp hdead'
    exact ⟨hfades.dead, hfades.owners, hfades.copies, hfades.stays⟩
  | joined processes torn machine pid index room layout table =>
    rw [machine]
    exact .joined h.machine room pid _ hp hdead

/-- A process that lives after a move lived before, unless the move made it. -/
theorem Turn.registered_of_mem (ht : Turn s mv s') (h : s.Sound loose broken)
    (hp : p ∈ s.processes) (hreg : s'.machine.Registered p) : s.machine.Registered p := by
  refine (h.machine.census.dead_or_registered hp).resolve_left fun hdead => ?_
  have hdead' := (ht.fades h hp hdead).dead
  rw [show s'.machine.process? p.pid = some p from hreg] at hdead'
  contradiction

/-- A frame that a dead process has for one of its pages is on record for that page. -/
def Backed (s : System) : Prop :=
  ∀ p ∈ s.processes, s.machine.process? p.pid = none → ∀ page f,
    (s.machine.table p).translate? page = some f → s.machine.ownerOf? f = some (p.pid, page)

/-- A page that was mapped when its process was torn down keeps its frame on record, or both are
lost. -/
theorem Turn.backed (ht : Turn s mv s') (h : s.Sound loose broken) (hb : s.Backed) :
    s'.Backed := by
  have hkept : ∀ p ∈ s.processes, s.machine.process? p.pid = none → ∀ page f,
      (s'.machine.table p).translate? page = some f →
      s'.machine.ownerOf? f = some (p.pid, page) := by
    intro p hp hdead page f htr
    obtain ⟨hold, hown⟩ := (ht.fades h hp hdead).stays page f htr
    exact hown (hb p hp hdead page f hold)
  intro p hp hdead page f htr
  cases ht with
  | went processes torn orderly =>
    rw [processes] at hp
    exact hkept p hp ((orderly.registry _).symm.trans hdead) page f htr
  | @tore q processes mem torn orderly cleared =>
    rw [processes] at hp
    rcases h.machine.census.dead_or_registered hp with hold | hreg
    · exact hkept p hp hold page f htr
    · have hdead' : (s.machine.without q.pid).process? p.pid = none :=
        (orderly.registry _).symm.trans hdead
      obtain ⟨hmapped, hown⟩ := (orderly.fades hp hdead').stays page f htr
      refine hown ((ownerOf?_eq_some (m := s.machine)).mpr ?_)
      exact h.machine.agreement.mapped p page f hreg hmapped
  | @joined q t stackPages processes torn machine pid index room layout table =>
    rw [machine, process?_joined] at hdead
    split at hdead
    · contradiction
    · next hne =>
      rw [processes] at hp
      refine hkept p ((List.mem_append.mp hp).resolve_right fun hnew => hne ?_) hdead page f htr
      rw [List.mem_singleton.mp hnew]

/-- **The dead have no frames but those on record for them.** -/
theorem Reachable.backed {config : Config} {swap : Swap} {m : Machine}
    (h : Reachable HasRoom (ofMachine m) s) (hboot : Machine.boot config swap = .ok m) :
    s.Backed :=
  h.invariant_of_sound (sound_boot hboot) (fun _ hp => absurd hp List.not_mem_nil)
    fun _ _ _ _ ht hroom hb => (turn ht hroom).backed ht hb

end System

end DemandPaging
