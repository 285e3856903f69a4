import Mathlib.Data.List.Perm.Basic
import DemandPaging.Kernel.System
import DemandPaging.Proofs.Footprint
import DemandPaging.Proofs.Spawning

/-!
# The invariant of a system

In a system the ledger is made up of what the users hold: the pins are those of held pages and of
calls in flight. `System.Sound` says that the machine is sound against that ledger, and that every
pin is on record for the page it is meant for. Every move keeps it, so it holds along every history,
and with it go the processes whose teardown stopped half way.
-/

namespace DemandPaging

open Machine

namespace Machine

/-- A machine that has just started. -/
def started (config : Config) (swap : Swap) : Machine where
  kernel := ⟨config, .ofSize config.frameCount, .zero, .empty, .ofSize config.frameCount, swap, ⟨1⟩⟩
  tables := #[]
  log := #[.booted config.frameCount config.stackPages config.referenceOnInstall]

theorem eq_started_of_boot {config : Config} {swap : Swap} {m : Machine}
    (h : boot config swap = .ok m) :
    config.frameCount ≤ wordBound ∧ m = started config swap := by
  unfold boot Kernel.boot FrameTable.ofSize? at h
  by_cases hzero : config.frameCount = 0
  · rw [if_pos hzero] at h
    contradiction
  · by_cases hn : config.frameCount ≤ wordBound
    · rw [if_neg hzero, if_pos hn] at h
      cases h
      exact ⟨hn, rfl⟩
    · rw [if_neg hzero, if_neg hn] at h
      contradiction

/-- A machine that has just started with `n` frames, one page for every stack, and swap without
limit. -/
def fresh (n : Nat) : Machine := started ⟨n, 1, true⟩ (.empty none)

end Machine

/-- The frame of a held page is on record for it. -/
def HeldPage.Recorded (g : HeldPage) (m : Machine) : Prop :=
  ∃ i, m.frameInfo? g.pin.frame = some i ∧ i.owner = some g.process.pid ∧ i.page = g.pin.page

namespace System

/-- All pins: those of held pages, and those of calls in flight. -/
def pins (s : System) : List FrameNumber :=
  s.held.map (·.pin.frame) ++ s.calls.filterMap Call.frame?

/-- Machine, calls and held pages agree. -/
structure Sound (s : System) (loose : List FrameNumber) (broken : List ProcessId) : Prop where
  machine : s.machine.Sound ⟨s.processes, s.pins, loose, broken⟩
  calls : ∀ c ∈ s.calls, c.process ∈ s.processes ∧ c.Valid ∧ c.Recorded s.machine
  held : ∀ g ∈ s.held, g.process ∈ s.processes ∧ g.Recorded s.machine
  /-- No pin is loose as long as executables answer. -/
  answers : (∀ p ∈ s.processes, p.image.Answers) → loose = []

/-! ## What a move does to others -/

/-- The process that a move tears down. -/
def torn? (s : System) : Move → Option ProcessId
  | .step i => s.calls[i]?.bind Call.torn?
  | .release i => s.processes[i]?.map UserProcess.pid
  | _ => none

/-- The process and the page that a move writes to, with the place in the page and the bytes. -/
def writing? (s : System) : Move → Option (UserProcess × PageNumber × Nat × Bytes)
  | .step i => s.calls[i]?.bind fun c => c.writing?.map fun w => (c.process, w)
  | _ => none

/-- The page that a move writes to, and whose it is. -/
def target? (s : System) (mv : Move) : Option (ProcessId × PageNumber) :=
  (s.writing? mv).map fun w => (w.1.pid, w.2.1)

/-- The process whose teardown a move leaves half done. -/
def broken (s : System) (mv : Move) : List ProcessId :=
  match (s.move mv).1 with
  | some (.violated _) => (s.torn? mv).toList
  | _ => []

/-- There is an identity left for a new process: fewer than 2 ^ 32 processes are ever made. -/
def HasRoom (s : System) : Move → Prop
  | .spawn .. => s.processes.length + 1 < wordBound
  | _ => True

instance (s : System) : (mv : Move) → Decidable (s.HasRoom mv)
  | .spawn .. => inferInstanceAs (Decidable (_ < _))
  | .request .. => inferInstanceAs (Decidable True)
  | .step _ => inferInstanceAs (Decidable True)
  | .drop _ => inferInstanceAs (Decidable True)
  | .release _ => inferInstanceAs (Decidable True)
  | .spoil _ => inferInstanceAs (Decidable True)

/-- What a move from a sound system leads to. -/
structure Moved (s s' : System) (broken : List ProcessId) (mv : Move) : Prop where
  sound : ∃ loose, s'.Sound loose (s.broken mv ++ broken)
  spares : Spares s.machine s'.machine s.pins (s.torn? mv) (s.target? mv)

variable {s : System} {loose : List FrameNumber} {broken : List ProcessId}

theorem moved_refl (h : s.Sound loose broken) {mv : Move} (htorn : s.torn? mv = none)
    (hbroken : s.broken mv = []) : s.Moved s broken mv := by
  refine ⟨⟨loose, by rw [hbroken]; exact h⟩, ?_⟩
  rw [htorn]
  exact (Spares.of_keeps (.refl _ _)).with_target _

/-! ## Records and pins -/

theorem mem_pins_of_held {g : HeldPage} (hg : g ∈ s.held) : g.pin.frame ∈ s.pins :=
  List.mem_append_left _ (List.mem_map_of_mem hg)

theorem mem_pins_of_call {c : Call} (hc : c ∈ s.calls) {f : FrameNumber} (hf : c.frame? = some f) :
    f ∈ s.pins :=
  List.mem_append_right _ (List.mem_filterMap.mpr ⟨c, hc, hf⟩)

/-- What a list of calls has, with one of them in front. -/
theorem filterMap_cons {α : Type} (own? : Call → Option α) (c : Call) (cs : List Call) :
    (c :: cs).filterMap own? = (own? c).toList ++ cs.filterMap own? := by
  cases hc : own? c with
  | none => rw [List.filterMap_cons_none hc]; rfl
  | some a => rw [List.filterMap_cons_some hc]; rfl

/-- What the calls have is what one of them has and what the others have. -/
theorem filterMap_perm {α : Type} (own? : Call → Option α) {cs : List Call} {i : Nat} {c : Call}
    (hc : cs[i]? = some c) :
    (cs.filterMap own?).Perm ((own? c).toList ++ (cs.eraseIdx i).filterMap own?) := by
  obtain ⟨hi, rfl⟩ := List.getElem?_eq_some_iff.mp hc
  have hcalls := (List.getElem_cons_eraseIdx_perm hi).symm.filterMap own?
  rw [filterMap_cons] at hcalls
  exact hcalls

/-- A call that takes the place of another brings what it has with it. -/
theorem filterMap_set_perm {α : Type} (own? : Call → Option α) {cs : List Call} {i : Nat} {c : Call}
    (hc : cs[i]? = some c) (c' : Call) :
    ((cs.set i c').filterMap own?).Perm ((own? c').toList ++ (cs.eraseIdx i).filterMap own?) := by
  have hcalls := (List.set_perm_cons_eraseIdx (List.getElem?_eq_some_iff.mp hc).1 c').filterMap own?
  rw [filterMap_cons] at hcalls
  exact hcalls

/-- Of the pins one call has its own, and all others are those of the rest. -/
theorem pins_perm {i : Nat} {c : Call} (hc : s.calls[i]? = some c) :
    s.pins.Perm (c.frame?.toList ++
      (s.held.map (·.pin.frame) ++ (s.calls.eraseIdx i).filterMap Call.frame?)) :=
  ((filterMap_perm Call.frame? hc).append_left _).trans (List.perm_append_comm_assoc ..)

/-- Calls and held pages are on record in every machine that spares the pins. -/
theorem records_of_spares (h : s.Sound loose broken) {m : Machine} {gone : Option ProcessId}
    {target : Option (ProcessId × PageNumber)} (hs : Spares s.machine m s.pins gone target) :
    (∀ c ∈ s.calls, c.process ∈ s.processes ∧ c.Valid ∧ c.Recorded m) ∧
      ∀ g ∈ s.held, g.process ∈ s.processes ∧ g.Recorded m := by
  constructor
  · intro c hc
    obtain ⟨hp, hv, hr⟩ := h.calls c hc
    refine ⟨hp, hv, fun f hf => ?_⟩
    obtain ⟨i, hi, howner, hpage⟩ := hr f hf
    obtain ⟨j, hj, howner', hpage'⟩ := hs.owner f (mem_pins_of_call hc hf) i hi
    exact ⟨j, hj, howner'.trans howner, fun page kind hw hk => hpage'.trans (hpage page kind hw hk)⟩
  · intro g hg
    obtain ⟨hp, i, hi, howner, hpage⟩ := h.held g hg
    obtain ⟨j, hj, howner', hpage'⟩ := hs.owner _ (mem_pins_of_held hg) i hi
    exact ⟨hp, j, hj, howner'.trans howner, hpage'.trans hpage⟩

/-! ## The moves -/

/-- A call that is asked for is about to begin, and no process depends on it. -/
theorem toCall_begins (p : UserProcess) (r : Request) :
    (r.toCall p).stage = .seeking ∧ (r.toCall p).purpose ≠ .spawn := by
  cases r <;> exact ⟨rfl, nofun⟩

/-- A call that is asked for is valid and holds nothing. -/
theorem toCall_valid (p : UserProcess) (r : Request) :
    (r.toCall p).process = p ∧ (r.toCall p).frame? = none ∧ (r.toCall p).Valid := by
  cases r with
  | pin page kind =>
    refine ⟨rfl, rfl, fun page' kind' hmem => ?_, fun _ => nofun, fun _ => nofun⟩
    cases List.mem_singleton.mp hmem
    exact ⟨rfl, rfl⟩
  | _ =>
    refine ⟨rfl, rfl, fun page' kind' hmem => ?_, fun _ => nofun, fun _ => nofun⟩
    cases List.mem_singleton.mp hmem

/-- **What the move that creates a process does**: nothing if it is refused, and otherwise it adds the
process and the call that loads it. -/
theorem move_spawn (s : System) (image : Executable) (args : List Bytes) (mode : PagingMode) :
    (∃ stop, Action.Refused s.machine image args stop ∧
      s.move (.spawn image args mode) = (some (.ofStop stop), s)) ∨
    ∃ c m, Action.Birth s.machine image args mode (.ok c m) ∧
      s.move (.spawn image args mode) = (none, { s with
        machine := m, processes := s.processes ++ [c.process], calls := s.calls ++ [c] }) := by
  have hspec := Action.spawn_spec s.machine image args mode
  cases hrun : (Action.spawn image args mode).run s.machine with
  | error stop m =>
    rw [hrun] at hspec
    cases hspec with
    | refused cause => exact Or.inl ⟨stop, cause, by simp only [move, System.spawn, hrun]⟩
  | ok c m => exact Or.inr ⟨c, m, hrun ▸ hspec, by simp only [move, System.spawn, hrun]⟩

/-- An action that does not wait changes neither processes nor calls. -/
theorem kept_perform (s : System) (a : Action Unit) :
    (s.perform a).2.processes = s.processes ∧ (s.perform a).2.calls = s.calls := by
  unfold perform
  split <;> exact ⟨rfl, rfl⟩

theorem kept_drop (s : System) (i : Nat) :
    (s.after (.drop i)).processes = s.processes ∧ (s.after (.drop i)).calls = s.calls := by
  simp only [after, move]
  split
  · exact ⟨rfl, rfl⟩
  · exact kept_perform ..

theorem kept_release (s : System) (i : Nat) :
    (s.after (.release i)).processes = s.processes ∧ (s.after (.release i)).calls = s.calls := by
  simp only [after, move]
  split
  · exact ⟨rfl, rfl⟩
  · exact kept_perform ..

theorem moved_request (h : s.Sound loose broken) (i : Nat) (r : Request) :
    s.Moved (s.after (.request i r)) broken (.request i r) := by
  cases hp : s.processes[i]? with
  | none =>
    have hafter : s.move (.request i r) = (none, s) := by simp only [move, hp]
    rw [after, hafter]
    exact moved_refl h rfl (by rw [System.broken, hafter])
  | some p =>
    obtain ⟨hprocess, hframe, hvalid⟩ := toCall_valid p r
    have hafter : s.move (.request i r) = (none, { s with calls := s.calls ++ [r.toCall p] }) := by
      simp only [move, hp]
    rw [after, hafter]
    have hpins : ({ s with calls := s.calls ++ [r.toCall p] } : System).pins = s.pins := by
      rw [pins, pins, List.filterMap_append, filterMap_cons, hframe]
      simp
    refine ⟨⟨loose, ?_⟩, (Spares.of_keeps (.refl _ _)).with_target _⟩
    rw [System.broken, hafter]
    refine ⟨hpins ▸ h.machine, fun c hc => ?_, h.held, h.answers⟩
    cases List.mem_append.mp hc with
    | inl hold => exact h.calls c hold
    | inr hnew =>
      cases List.mem_singleton.mp hnew
      refine ⟨?_, hvalid, fun f hf => ?_⟩
      · rw [hprocess]
        exact List.mem_of_getElem? hp
      · rw [hframe] at hf
        contradiction

theorem moved_spoil (h : s.Sound loose broken) (unreadable : PageNumber → Bool) :
    s.Moved (s.after (.spoil unreadable)) broken (.spoil unreadable) := by
  have halike : Alike s.machine (s.machine.spoiled unreadable) :=
    ⟨rfl, ⟨rfl, fun _ => rfl⟩, rfl, rfl, fun _ => rfl, rfl, rfl⟩
  have hspares : Spares s.machine (s.machine.spoiled unreadable) s.pins none none :=
    .of_keeps (.alike halike _)
  exact ⟨⟨loose, h.machine.alike halike, h.calls, h.held, h.answers⟩, hspares⟩

theorem moved_spawn (h : s.Sound loose broken) {image : Executable} {args : List Bytes}
    {mode : PagingMode} (hroom : s.HasRoom (.spawn image args mode)) :
    s.Moved (s.after (.spawn image args mode)) broken (.spawn image args mode) := by
  rcases move_spawn s image args mode with ⟨stop, -, hmove⟩ | ⟨c, m, hbirth, hmove⟩
  · rw [after, hmove]
    refine moved_refl h rfl ?_
    rw [System.broken]
    split <;> rfl
  · cases hbirth with
    | @begun p t pid index himage fits absent =>
      let c : Call := ⟨p, .spawn,
        .load mode :: (ArgumentBlock.steps p.argv args).map ArgumentStep.toTask, .seeking⟩
      rw [after, hmove]
      have hframe : c.frame? = none := rfl
      have hvalid : c.Valid := by
        refine ⟨fun page kind hmem => ?_, fun _ => nofun, fun _ => nofun⟩
        obtain ⟨step, -, hstep⟩ := List.mem_map.mp ((List.mem_cons.mp hmem).resolve_left nofun)
        cases step <;> contradiction
      have hpins : (⟨s.machine.joined p t, s.processes ++ [p], s.calls ++ [c], s.held⟩ :
          System).pins = s.pins := by
        rw [pins, pins, List.filterMap_append, filterMap_cons, hframe]
        simp
      have hspares := Spares.joined h.machine hroom pid t s.pins
      obtain ⟨hcalls, hheld⟩ := records_of_spares h hspares
      refine ⟨⟨loose, ?_⟩, hspares⟩
      rw [System.broken, hmove]
      refine ⟨hpins ▸ h.machine.joined hroom pid index fits absent, fun c' hc => ?_,
        fun g hg => ?_, ?_⟩
      · cases List.mem_append.mp hc with
        | inl hold =>
          obtain ⟨hp, hv, hr⟩ := hcalls c' hold
          exact ⟨List.mem_append_left _ hp, hv, hr⟩
        | inr hnew =>
          cases List.mem_singleton.mp hnew
          refine ⟨List.mem_append_right _ (List.mem_singleton_self p), hvalid, fun f hf => ?_⟩
          rw [hframe] at hf
          contradiction
      · obtain ⟨hp, hr⟩ := hheld g hg
        exact ⟨List.mem_append_left _ hp, hr⟩
      · exact fun hall => h.answers fun q hq => hall q (List.mem_append_left _ hq)

/-- What a call leaves to the system when it ends is at most a held page. -/
theorem keep_cases (s : System) (c : Call) (o : Outcome) :
    (∃ g, o = .returned (.pinned g) ∧ s.keep c o = { s with held := s.held ++ [⟨c.process, g⟩] }) ∨
      (Progress.finished o).frame? = none ∧ s.keep c o = s := by
  unfold keep
  split
  · exact Or.inl ⟨_, rfl, rfl⟩
  · next hne => exact Or.inr ⟨Call.frame?_finished fun g heq => hne g heq, rfl⟩

/-- What a step of one of the calls of a sound system can do. -/
theorem stepped (h : s.Sound loose broken) {i : Nat} {c : Call} (hc : s.calls[i]? = some c) :
    Call.Stepped s.machine ⟨s.processes, s.pins, loose, broken⟩ c (c.step s.machine) := by
  have hmem := List.mem_of_getElem? hc
  obtain ⟨hp, hv, hr⟩ := h.calls c hmem
  exact c.step_spec h.machine hp hv hr fun f hf => mem_pins_of_call hmem hf

theorem torn?_step {i : Nat} {c : Call} (hc : s.calls[i]? = some c) :
    s.torn? (.step i) = c.torn? := by
  rw [torn?, hc]
  rfl

theorem target?_step {i : Nat} {c : Call} (hc : s.calls[i]? = some c) :
    s.target? (.step i) = c.target? := by
  rw [target?, writing?, hc, Option.bind_some, Option.map_map]
  rfl

/-- The machine after a step is the one that the call leaves behind. -/
theorem machine_after_step {i : Nat} {c : Call} (hc : s.calls[i]? = some c) :
    (s.after (.step i)).machine = (c.step s.machine).2 := by
  simp only [after, move, stepCall, hc]
  split
  · next heq => rw [heq]
  · next o m heq =>
    rw [heq]
    rcases keep_cases { s with machine := m, calls := s.calls.eraseIdx i } c o with
      ⟨g, -, hkeep⟩ | ⟨-, hkeep⟩ <;> rw [hkeep]

/-- The system after one of its calls went a step and goes on. -/
theorem moved_ongoing (h : s.Sound loose broken) {i : Nat} {c c' : Call} {m : Machine}
    (hc : s.calls[i]? = some c) (hstep : c.step s.machine = (.ongoing c', m)) :
    s.Moved { s with machine := m, calls := s.calls.set i c' } broken (.step i) := by
  obtain ⟨hp, hv, hr⟩ := h.calls c (List.mem_of_getElem? hc)
  have hspec := stepped h hc
  obtain ⟨loose', hloose, hsound⟩ := hspec.sound h.machine (pins_perm hc) hv
  have hspares := hspec.spares hr
  have hfollows := hspec.follows hv hr
  rw [hstep] at hsound hspares hfollows
  obtain ⟨hcalls, hheld⟩ := records_of_spares h hspares
  have hbroken : s.broken (.step i) = [] := by
    simp only [System.broken, move, stepCall, hc, hstep]
  have hpins : ({ s with machine := m, calls := s.calls.set i c' } : System).pins.Perm
      (c'.frame?.toList ++
        (s.held.map (·.pin.frame) ++ (s.calls.eraseIdx i).filterMap Call.frame?)) :=
    ((filterMap_set_perm Call.frame? hc c').append_left _).trans (List.perm_append_comm_assoc ..)
  refine ⟨⟨loose', ?_⟩, ?_⟩
  · rw [hbroken]
    refine ⟨hsound.perm hpins.symm, fun d hd => ?_, hheld, fun hall => ?_⟩
    · cases List.mem_or_eq_of_mem_set hd with
      | inl hold => exact hcalls d hold
      | inr hnew =>
        rw [hnew]
        exact ⟨hfollows.1 ▸ hp, hfollows.2⟩
    · rw [hloose fun _ _ => hall _ hp, h.answers hall]
  · rw [torn?_step hc, target?_step hc]
    exact hspares

/-- The system after one of its calls went its last step. -/
theorem moved_finished (h : s.Sound loose broken) {i : Nat} {c : Call} {o : Outcome} {m : Machine}
    (hc : s.calls[i]? = some c) (hstep : c.step s.machine = (.finished o, m)) :
    s.Moved (keep { s with machine := m, calls := s.calls.eraseIdx i } c o) broken (.step i) := by
  obtain ⟨hp, hv, hr⟩ := h.calls c (List.mem_of_getElem? hc)
  have hspec := stepped h hc
  obtain ⟨loose', hloose, hsound⟩ := hspec.sound h.machine (pins_perm hc) hv
  have hspares := hspec.spares hr
  have hfollows := hspec.follows hv hr
  rw [hstep] at hsound hspares hfollows
  have hbroken : s.broken (.step i) = c.broken (.finished o) := by
    simp only [System.broken, move, stepCall, hc, hstep, Call.broken, torn?_step hc]
    cases o <;> rfl
  obtain ⟨hcalls, hheld⟩ := records_of_spares h hspares
  replace hcalls : ∀ d ∈ s.calls.eraseIdx i, d.process ∈ s.processes ∧ d.Valid ∧ d.Recorded m :=
    fun d hd => hcalls d (List.mem_of_mem_eraseIdx hd)
  have hanswers : (∀ p ∈ s.processes, p.image.Answers) → loose' = [] :=
    fun hall => (hloose fun _ _ => hall _ hp).trans (h.answers hall)
  rw [← torn?_step hc, ← target?_step hc] at hspares
  rcases keep_cases { s with machine := m, calls := s.calls.eraseIdx i } c o with
    ⟨g, ho, hkeep⟩ | ⟨hframe, hkeep⟩
  · rw [hkeep]
    refine ⟨⟨loose', ?_⟩, hspares⟩
    rw [hbroken]
    subst ho
    have hpins : (g.frame :: (s.held.map (·.pin.frame) ++
        (s.calls.eraseIdx i).filterMap Call.frame?)).Perm
        ((s.held ++ [(⟨c.process, g⟩ : HeldPage)]).map (·.pin.frame) ++
          (s.calls.eraseIdx i).filterMap Call.frame?) := by
      rw [List.map_append, List.append_assoc]
      exact List.perm_middle.symm
    refine ⟨hsound.perm hpins, hcalls, fun d hd => ?_, hanswers⟩
    · cases List.mem_append.mp hd with
      | inl hold => exact hheld d hold
      | inr hnew =>
        cases List.mem_singleton.mp hnew
        exact ⟨hp, hfollows⟩
  · rw [hkeep]
    refine ⟨⟨loose', ?_⟩, hspares⟩
    rw [hbroken]
    rw [hframe] at hsound
    exact ⟨hsound, hcalls, hheld, hanswers⟩

theorem moved_step (h : s.Sound loose broken) (i : Nat) :
    s.Moved (s.after (.step i)) broken (.step i) := by
  cases hc : s.calls[i]? with
  | none =>
    have hmove : s.move (.step i) = (none, s) := by simp only [move, stepCall, hc]
    rw [after, hmove]
    refine moved_refl h ?_ (by rw [System.broken, hmove])
    rw [torn?, hc]
    rfl
  | some c =>
    cases hstep : c.step s.machine with
    | mk pr m =>
      cases pr with
      | ongoing c' =>
        simp only [after, move, stepCall, hc, hstep]
        exact moved_ongoing h hc hstep
      | finished o =>
        simp only [after, move, stepCall, hc, hstep]
        exact moved_finished h hc hstep

/-- **What the move that drops a page does**: nothing if there is no such page, and otherwise the page
is held no longer and its frame has one pin less. -/
theorem move_drop (h : s.Sound loose broken) (i : Nat) :
    s.move (.drop i) = (none, s) ∨
    ∃ g f, s.held[i]? = some g ∧ s.machine.frameInfo? g.pin.frame = some f ∧ f.pins ≠ 0 ∧
      s.move (.drop i) = (some (.returned .done), { s with
        machine := s.machine.withFrames (s.machine.kernel.frames.dropPin g.pin.frame f),
        held := s.held.eraseIdx i }) := by
  cases hg : s.held[i]? with
  | none => exact Or.inl (by simp only [move, hg])
  | some g =>
    have hmem := mem_pins_of_held (List.mem_of_getElem? hg)
    obtain ⟨f, hf, hpins, -⟩ := h.machine.info_of_pinned hmem
    exact Or.inr ⟨g, f, rfl, hf, hpins, by simp only [move, hg, perform, Action.run_unpin hf hpins]⟩

/-- A page that is held has one of the pins. -/
theorem pins_perm_held {i : Nat} {g : HeldPage} (hg : s.held[i]? = some g) :
    s.pins.Perm (g.pin.frame ::
      ((s.held.eraseIdx i).map (·.pin.frame) ++ s.calls.filterMap Call.frame?)) := by
  obtain ⟨hi, rfl⟩ := List.getElem?_eq_some_iff.mp hg
  exact ((List.getElem_cons_eraseIdx_perm hi).symm.map (·.pin.frame)).append_right _

theorem moved_drop (h : s.Sound loose broken) (i : Nat) :
    s.Moved (s.after (.drop i)) broken (.drop i) := by
  rcases move_drop h i with hmove | ⟨g, f, hg, hf, -, hmove⟩
  · rw [after, hmove]
    exact moved_refl h rfl (by rw [System.broken, hmove])
  · rw [after, hmove]
    have hspares : Spares s.machine
        (s.machine.withFrames (s.machine.kernel.frames.dropPin g.pin.frame f)) s.pins none none :=
      .of_keeps (.dropPin hf _)
    refine ⟨⟨loose, ?_⟩, hspares⟩
    rw [System.broken, hmove]
    obtain ⟨hcalls, hheld⟩ := records_of_spares h hspares
    exact ⟨(h.machine.perm (pins_perm_held hg)).dropPin rfl hf, hcalls,
      fun d hd => hheld d (List.mem_of_mem_eraseIdx hd), h.answers⟩

theorem torn?_release {i : Nat} {p : UserProcess} (hp : s.processes[i]? = some p) :
    s.torn? (.release i) = some p.pid := by
  rw [torn?, hp]
  rfl

/-- **What the move that tears a process down does**: nothing if there is no such process, and otherwise
the process is gone or the teardown stops with a violation. -/
theorem move_release (h : s.Sound loose broken) (i : Nat) :
    s.processes[i]? = none ∧ s.move (.release i) = (none, s) ∨
    ∃ p m, s.processes[i]? = some p ∧
      (Departure s.machine ⟨s.processes, s.pins, loose, broken⟩ p (.ok () m) ∧
          s.move (.release i) = (some (.returned .done), { s with machine := m }) ∨
        ∃ v, Departure s.machine ⟨s.processes, s.pins, loose, broken⟩ p (.error (.violation v) m) ∧
          s.move (.release i) = (some (.violated v), { s with machine := m })) := by
  cases hp : s.processes[i]? with
  | none => exact Or.inl ⟨rfl, by simp only [move, hp]⟩
  | some p =>
    have hdepart := Action.tearDown_spec h.machine (List.mem_of_getElem? hp)
    cases hrun : (Action.tearDown p).run s.machine with
    | ok _ m =>
      exact Or.inr ⟨p, m, rfl, Or.inl ⟨hrun ▸ hdepart, by simp only [move, hp, perform, hrun]⟩⟩
    | error stop m =>
      rw [hrun] at hdepart
      cases stop with
      | error e => cases hdepart
      | violation v =>
        exact Or.inr ⟨p, m, rfl, Or.inr ⟨v, hdepart,
          by simp only [move, hp, perform, hrun, Outcome.ofStop]⟩⟩

theorem moved_release (h : s.Sound loose broken) (i : Nat) :
    s.Moved (s.after (.release i)) broken (.release i) := by
  rcases move_release h i with
    ⟨hp, hmove⟩ | ⟨p, m, hp, ⟨hdepart, hmove⟩ | ⟨v, hdepart, hmove⟩⟩
  · rw [after, hmove]
    refine moved_refl h ?_ (by rw [System.broken, hmove])
    rw [torn?, hp]
    rfl
  · rw [after, hmove]
    cases hdepart with
    | gone sound keeps idle waiters =>
      have hspares := (Spares.of_without keeps).with_target (s.target? (.release i))
      refine ⟨⟨loose, ?_⟩, by rw [torn?_release hp]; exact hspares⟩
      rw [System.broken, hmove]
      obtain ⟨hcalls, hheld⟩ := records_of_spares h hspares
      exact ⟨sound, hcalls, hheld, h.answers⟩
  · rw [after, hmove]
    cases hdepart with
    | stopped sound keeps idle waiters =>
      have hspares := (Spares.of_without keeps).with_target (s.target? (.release i))
      refine ⟨⟨loose, ?_⟩, by rw [torn?_release hp]; exact hspares⟩
      rw [System.broken, hmove, torn?_release hp]
      obtain ⟨hcalls, hheld⟩ := records_of_spares h hspares
      exact ⟨sound, hcalls, hheld, h.answers⟩

/-- **Every move keeps a system sound**, and touches no more than it says. -/
theorem moved (h : s.Sound loose broken) {mv : Move} (hroom : s.HasRoom mv) :
    s.Moved (s.after mv) broken mv := by
  cases mv with
  | spawn image args mode => exact moved_spawn h hroom
  | request i r => exact moved_request h i r
  | step i => exact moved_step h i
  | drop i => exact moved_drop h i
  | release i => exact moved_release h i
  | spoil unreadable => exact moved_spoil h unreadable

/-! ## Histories -/

/-- A machine without processes whose frames are all free is sound. -/
theorem sound_started {config : Config} (hn : config.frameCount ≤ wordBound) (swap : Swap) :
    (started config swap).Sound ⟨[], [], [], []⟩ := by
  have hdead : ∀ p, ¬ (started config swap).Registered p :=
    fun p hp => (Option.some_ne_none p).symm hp
  have hfree : ∀ f i, (started config swap).frameInfo? f = some i → i = .free := by
    intro f i hi
    have hget : (started config swap).frameInfo? f =
        if f.toNat < config.frameCount then some .free else none := Directory.get?_ofSize ..
    rw [hget] at hi
    split at hi
    · exact (Option.some.inj hi).symm
    · contradiction
  have hcensus : (started config swap).Census [] := by
    have hsizes : (started config swap).sizes = #[] := Array.map_empty
    refine ⟨by decide, fun i p hp => (nomatch hp), rfl, rfl, fun pid p hp => (nomatch hp), .nil, ?_⟩
    rw [hsizes]
    exact fun n hn => absurd hn (Array.not_mem_empty n)
  refine ⟨.ofSize hn, ?_, hcensus, fun pid hpid => absurd hpid List.not_mem_nil,
    ⟨fun p page f hp => absurd hp (hdead p), fun f i p hi ho hp => absurd hp (hdead p),
      fun f i pid hi ho => ?_, fun f i hi => ?_, fun f hf => absurd hf List.not_mem_nil,
      fun f hf => absurd hf List.not_mem_nil⟩, fun p page e f hp => absurd hp (hdead p)⟩
  · simp only [started, PhysicalMemory.ofSize, FrameTable.ofSize, Directory.ofSize, Directory.size,
      Array.size_replicate]
  · rw [hfree f i hi] at ho
    contradiction
  · rw [hfree f i hi]
    rfl

/-- A machine that has just started is sound, and nobody has anything. -/
theorem sound_boot {config : Config} {swap : Swap} {m : Machine}
    (h : Machine.boot config swap = .ok m) : (ofMachine m).Sound [] [] := by
  obtain ⟨hn, rfl⟩ := eq_started_of_boot h
  exact ⟨sound_started hn swap, fun c hc => absurd hc List.not_mem_nil,
    fun g hg => absurd hg List.not_mem_nil, fun _ => rfl⟩

/-- Each of the moves is allowed when its turn comes. -/
def AllAllowed (allowed : System → Move → Prop) : System → List Move → Prop
  | _, [] => True
  | s, mv :: moves => allowed s mv ∧ AllAllowed allowed (s.after mv) moves

instance decidableAllAllowed {allowed : System → Move → Prop}
    [∀ s mv, Decidable (allowed s mv)] :
    (s : System) → (moves : List Move) → Decidable (AllAllowed allowed s moves)
  | _, [] => inferInstanceAs (Decidable True)
  | s, mv :: moves =>
    have : Decidable (AllAllowed allowed (s.after mv) moves) :=
      decidableAllAllowed (s.after mv) moves
    inferInstanceAs (Decidable (allowed s mv ∧ AllAllowed allowed (s.after mv) moves))

/-- Allowed moves lead on from a reachable system to a reachable system. -/
theorem Reachable.run {allowed : System → Move → Prop} {start s : System}
    (h : Reachable allowed start s) {moves : List Move} (hmoves : AllAllowed allowed s moves) :
    Reachable allowed start (s.run moves) := by
  induction moves generalizing s with
  | nil => exact h
  | cons mv moves ih => exact ih (.move mv h hmoves.1) hmoves.2

/-- The systems that allowed moves lead to, each with the processes whose teardown stopped half way
until then. -/
inductive History (allowed : System → Move → Prop) (start : System) :
    System → List ProcessId → Prop
  | start : History allowed start start []
  | move {s : System} {broken : List ProcessId} (mv : Move) :
    History allowed start s broken → allowed s mv →
      History allowed start (s.after mv) (s.broken mv ++ broken)

/-- Every reachable system has a history. -/
theorem Reachable.history {allowed : System → Move → Prop} {start s : System}
    (h : Reachable allowed start s) : ∃ broken, History allowed start s broken := by
  induction h with
  | start => exact ⟨[], .start⟩
  | move mv _ ha ih =>
    obtain ⟨broken, hh⟩ := ih
    exact ⟨_, .move mv hh ha⟩

theorem History.reachable {allowed : System → Move → Prop} {start s : System}
    {broken : List ProcessId} (h : History allowed start s broken) :
    Reachable allowed start s := by
  induction h with
  | start => exact .start
  | move mv _ ha ih => exact .move mv ih ha

/-- Allowed moves that tear nothing down half way go on with a history. -/
theorem History.run {allowed : System → Move → Prop} {start s : System} {broken : List ProcessId}
    (h : History allowed start s broken) {moves : List Move}
    (hmoves : AllAllowed (fun s mv => allowed s mv ∧ s.broken mv = []) s moves) :
    History allowed start (s.run moves) broken := by
  induction moves generalizing s with
  | nil => exact h
  | cons mv moves ih =>
    obtain ⟨⟨hallowed, hbroken⟩, hmoves⟩ := hmoves
    have hnext := History.move mv h hallowed
    rw [hbroken, List.nil_append] at hnext
    exact ih hnext hmoves

/-- **Every history keeps a system sound.** -/
theorem History.sound {config : Config} {swap : Swap} {m : Machine}
    (hboot : Machine.boot config swap = .ok m) {allowed : System → Move → Prop}
    (hallowed : ∀ s mv, allowed s mv → s.HasRoom mv) {s : System} {broken : List ProcessId}
    (h : History allowed (ofMachine m) s broken) : ∃ loose, s.Sound loose broken := by
  induction h with
  | start => exact ⟨[], sound_boot hboot⟩
  | move mv _ ha ih =>
    obtain ⟨loose, hs⟩ := ih
    exact (moved hs (hallowed _ _ ha)).sound

/-- There is room for the move, and an executable that comes with it answers. -/
def Trusts (s : System) (mv : Move) : Prop :=
  s.HasRoom mv ∧ ∀ image args mode, mv = .spawn image args mode → image.Answers

/-- Images held in memory answer. -/
theorem trusts_image {s : System} (img : Image) (args : List Bytes) (mode : PagingMode)
    (hroom : s.processes.length + 1 < wordBound) :
    s.Trusts (.spawn img.toExecutable args mode) := by
  refine ⟨hroom, fun image args' mode' hmv => ?_⟩
  cases hmv
  exact img.answers

/-- Moves that make no process can be trusted. -/
theorem trusts_of_ne {s : System} {mv : Move}
    (h : ∀ image args mode, mv ≠ .spawn image args mode) : s.Trusts mv := by
  refine ⟨?_, fun image args mode heq => absurd heq (h image args mode)⟩
  cases mv with
  | spawn image args mode => exact absurd rfl (h image args mode)
  | _ => trivial

/-- No step makes a process. -/
theorem processes_after_step (s : System) (i : Nat) :
    (s.after (.step i)).processes = s.processes := by
  simp only [after, move, stepCall]
  split
  · rfl
  · split
    · rfl
    · next o m _ =>
      rcases keep_cases { s with machine := m, calls := s.calls.eraseIdx i } _ o with
        ⟨g, -, hkeep⟩ | ⟨-, hkeep⟩ <;> rw [hkeep]

/-- Executables of processes are those they were made from. -/
theorem processes_after (s : System) (mv : Move) {p : UserProcess}
    (hp : p ∈ (s.after mv).processes) :
    p ∈ s.processes ∨ ∃ image args mode, mv = .spawn image args mode ∧ p.image = image := by
  cases mv with
  | spawn image args mode =>
    rcases move_spawn s image args mode with ⟨stop, -, hmove⟩ | ⟨c, m, hbirth, hmove⟩
    · rw [after, hmove] at hp
      exact Or.inl hp
    · rw [after, hmove] at hp
      cases hbirth with
      | begun pid index himage fits absent =>
        refine (List.mem_append.mp hp).imp_right fun hnew => ?_
        cases List.mem_singleton.mp hnew
        exact ⟨image, args, mode, rfl, himage⟩
  | request i r =>
    simp only [after, move] at hp
    split at hp <;> exact Or.inl hp
  | step i =>
    rw [processes_after_step] at hp
    exact Or.inl hp
  | drop i => exact Or.inl ((kept_drop s i).1 ▸ hp)
  | release i => exact Or.inl ((kept_release s i).1 ▸ hp)
  | spoil unreadable => exact Or.inl hp

/-- The executables of all processes answer, as those of new processes do. -/
theorem Reachable.answers {m : Machine} {s : System} (h : Reachable Trusts (ofMachine m) s) :
    ∀ p ∈ s.processes, p.image.Answers := by
  refine h.invariant (P := fun t => ∀ p ∈ t.processes, p.image.Answers)
    (fun p hp => absurd hp List.not_mem_nil) fun t mv ih ha p hp => ?_
  rcases processes_after t mv hp with hold | ⟨image, args, mode, hmv, himage⟩
  · exact ih p hold
  · rw [himage]
    exact ha.2 image args mode hmv

/-- As long as executables answer, no pin is ever loose. -/
theorem History.answers {config : Config} {swap : Swap} {m : Machine}
    (hboot : Machine.boot config swap = .ok m) {s : System} {broken : List ProcessId}
    (h : History Trusts (ofMachine m) s broken) : s.Sound [] broken := by
  obtain ⟨loose, hs⟩ := h.sound hboot fun _ _ ha => ha.1
  have hloose := hs.answers h.reachable.answers
  exact hloose ▸ hs

/-- A system with one frame, which holds a page that someone keeps pinned. -/
def holding : System := (ofMachine (fresh 1)).run
  [.spawn (Image.ofMemory .empty).toExecutable [] .demand, .step 0, .request 0 (.pin ⟨0⟩ .read),
    .step 0, .step 0]

theorem history_holding : History Trusts (ofMachine (fresh 1)) holding [] := by
  have hspawn : (ofMachine (fresh 1)).Trusts
      (.spawn (Image.ofMemory .empty).toExecutable [] .demand) :=
    trusts_image _ _ _ (show 0 + 1 < wordBound by decide)
  exact .move _ (.move _ (.move _ (.move _ (.move _ .start hspawn) (trusts_of_ne nofun))
    (trusts_of_ne nofun)) (trusts_of_ne nofun)) (trusts_of_ne nofun)

end System

end DemandPaging
