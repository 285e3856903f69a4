import DemandPaging.Kernel.Call
import DemandPaging.Proofs.Copies
import DemandPaging.Proofs.Population

/-!
# Steps of calls

`Call.Stepped` lists what one step of a call can do to a sound machine: nothing that matters, an
attempt to get at a page, a pin dropped or kept, a piece copied, or a teardown. `Call.step_spec`
says that the list is complete; what later modules prove of a step is proved case by case along it.
-/

namespace DemandPaging

open Machine

/-- The frame that is pinned for what the call has become. -/
def Call.frame? (c : Call) : Option FrameNumber :=
  match c.stage with
  | .holding f => some f
  | .leaving f => some f
  | _ => none

/-- The frame that is pinned for what the call has become, or for its answer. -/
def Progress.frame? : Progress → Option FrameNumber
  | .ongoing c => c.frame?
  | .finished (.returned (.pinned g)) => some g.frame
  | .finished _ => none

namespace Call

/-- A call that keeps a page pinned does nothing else, and a call that waits for a page or holds it
has a use for it. -/
structure Valid (c : Call) : Prop where
  hold : ∀ page kind, Task.hold page kind ∈ c.tasks →
    c.tasks = [.hold page kind] ∧ c.purpose = .plain
  waiting : ∀ t, c.stage = .waiting t → ∃ page kind, c.wanted? = some (page, kind)
  holding : ∀ f, c.stage = .holding f → ∃ page kind, c.wanted? = some (page, kind)

/-- The frame that is pinned for the call belongs to its process, and a frame that is yet to be used
holds the page that the call wants. -/
def Recorded (c : Call) (m : Machine) : Prop :=
  ∀ f, c.frame? = some f → ∃ i, m.frameInfo? f = some i ∧ i.owner = some c.process.pid ∧
    ∀ page kind, c.stage = .holding f → c.wanted? = some (page, kind) → i.page = page

/-- The page that the next step writes to, with the place in the page and the bytes. -/
def writing? (c : Call) : Option (PageNumber × Nat × Bytes) :=
  match c.stage, c.tasks with
  | .holding _, .copy copy :: _ =>
    match copy.kind, copy.turn c.process.layout with
    | .write, .piece piece => some (piece.page, piece.offset.toNat, copy.outgoing piece)
    | _, _ => none
  | _, _ => none

/-! ## Ends without effect -/

/-- Nothing is left to do for the task. What is copied for a new process must be copied to the last
byte. -/
def Over (c : Call) : Task → Prop
  | .load mode => mode = .demand
  | .touch next stop => ¬ next < stop
  | .hold .. => False
  | .copy copy => (∀ piece, copy.turn c.process.layout ≠ .piece piece) ∧
      (c.purpose = .spawn → copy.length ≤ copy.done)
  | .refuse _ => False

/-- What the tasks of a call become when it asks for no page: the first may be over, or it becomes a
range of pages to touch. -/
inductive Reduces (c : Call) : List Task → Prop
  | same : Reduces c c.tasks
  | ended {t : Task} {rest : List Task} (tasks : c.tasks = t :: rest) (ended : c.Over t) :
      Reduces c rest
  | load {rest : List Task} (tasks : c.tasks = .load .eager :: rest) :
      Reduces c (.touch 0 c.process.numPages :: rest)
  | touch {next stop : Nat} {rest : List Task} (tasks : c.tasks = .touch next stop :: rest) :
      Reduces c (.touch (next + 1) stop :: rest)

/-- Tasks that a call may go on with: none keeps a page, and they are what its tasks become. -/
structure Remaining (c : Call) (ts : List Task) : Prop where
  keeps : ∀ page kind, Task.hold page kind ∉ ts
  reduces : c.Reduces ts

/-- The call goes on as `c'`, of the same process and for the same purpose. Only the creation of a
process has something to undo. -/
structure Continues (c c' : Call) : Prop where
  process : c'.process = c.process
  purpose : c'.purpose = c.purpose
  reduces : c.Reduces c'.tasks
  stage : ∀ e, c'.stage = .undoing e → c.purpose = .spawn

/-- The call may end like this without a pin: what it hands over is a copy that it had to make, or
the process that it had to create, if there is nothing left to do for it. The creation of a process
does not fail at once. -/
structure Ends (c : Call) (o : Outcome) : Prop where
  unpinned : ∀ g, o ≠ .returned (.pinned g)
  copied : ∀ copy, o = .returned (.copied copy) → Task.copy copy ∈ c.tasks
  text : ∀ t, o = .returned (.text t) → c.purpose = .text ∧
    ∃ copy, Task.copy copy ∈ c.tasks ∧ t = terminatedText? copy.bytes
  spawned : ∀ p, o = .returned (.spawned p) →
    c.process = p ∧ c.purpose = .spawn ∧ c.Reduces []
  failed : ∀ e copied, o = .failed e copied → c.purpose ≠ .spawn

/-- A step that asked for no page, or a call that ended without a pin. -/
def Quiet (c : Call) : Progress → Prop
  | .ongoing c' => c.Continues c' ∧ c'.frame? = none ∧ (∀ t, c'.stage ≠ .waiting t) ∧ c'.Valid
  | .finished o => c.Ends o

/-- A call that asked for no page can only violate an assertion if its process has no stack. -/
def Violates (c : Call) (stop : Stop VmError) : Prop :=
  ∀ v, stop = .violation v → c.process.stackPointer? = none

/-- The action changes nothing that matters, and ends quietly or fails. -/
def RunsQuietly (c : Call) (x : Action Progress) (m : Machine) : Prop :=
  ∃ m', Alike m m' ∧ m'.waiters = m.waiters ∧
    ((∃ pr, c.Quiet pr ∧ (∀ v, pr ≠ .finished (.violated v)) ∧ x.run m = .ok pr m') ∨
      ∃ stop, c.Violates stop ∧ x.run m = .error stop m')

variable {c : Call} {m : Machine}

theorem runsQuietly_pure {pr : Progress} (h : c.Quiet pr) (hv : ∀ v, pr ≠ .finished (.violated v)) :
    c.RunsQuietly (pure pr) m :=
  ⟨m, .refl m, rfl, Or.inl ⟨pr, h, hv, rfl⟩⟩

theorem runsQuietly_fail (e : VmError) : c.RunsQuietly (Action.fail e) m :=
  ⟨m, .refl m, rfl, Or.inr ⟨.error e, fun _ => nofun, rfl⟩⟩

theorem runsQuietly_note {x : Action Progress} {e : Event} (h : c.RunsQuietly x (m.noted e)) :
    c.RunsQuietly (do Action.note e; x) m := by
  obtain ⟨m', halike, hwaiters, hrun⟩ := h
  exact ⟨m', (Alike.noted m e).trans halike, hwaiters, hrun⟩

/-- A call that goes on with fewer tasks, or with other tasks that keep no page, stays valid. -/
theorem valid_withTasks {ts : List Task} (h : ∀ page kind, Task.hold page kind ∉ ts) :
    (c.withTasks ts).Valid :=
  ⟨fun page kind hmem => absurd hmem (h page kind), fun _ hstage => (by cases hstage),
    fun _ hstage => (by cases hstage)⟩

/-- Apart from pages to touch, a call gets no tasks. -/
theorem Reduces.mem {ts : List Task} (h : c.Reduces ts) {t : Task} (ht : t ∈ ts) :
    t ∈ c.tasks ∨ ∃ next stop, t = .touch next stop := by
  cases h with
  | same => exact Or.inl ht
  | ended tasks ended => exact Or.inl (tasks ▸ List.mem_cons_of_mem _ ht)
  | load tasks =>
    exact (List.mem_cons.mp ht).symm.imp (fun hmem => tasks ▸ List.mem_cons_of_mem _ hmem)
      fun heq => ⟨_, _, heq⟩
  | touch tasks =>
    exact (List.mem_cons.mp ht).symm.imp (fun hmem => tasks ▸ List.mem_cons_of_mem _ hmem)
      fun heq => ⟨_, _, heq⟩

theorem Remaining.continues {ts : List Task} (h : c.Remaining ts) : c.Continues (c.withTasks ts) :=
  ⟨rfl, rfl, h.reduces, fun _ hstage => (by cases hstage)⟩

theorem quiet_withTasks {ts : List Task} (h : c.Remaining ts) :
    c.Quiet (.ongoing (c.withTasks ts)) :=
  ⟨h.continues, rfl, fun _ hstage => (by cases hstage), valid_withTasks h.keeps⟩

/-- A task that keeps no page has none behind it that does. -/
theorem Valid.not_mem_rest (hv : c.Valid) {t : Task} {rest : List Task} (ht : c.tasks = t :: rest)
    (hne : ∀ page kind, t ≠ .hold page kind) (page : PageNumber) (kind : AccessKind) :
    Task.hold page kind ∉ rest := by
  intro hmem
  have hall := (hv.hold page kind (by rw [ht]; exact List.mem_cons_of_mem t hmem)).1
  rw [ht, List.cons.injEq] at hall
  exact hne page kind hall.1

/-- What is left when the first task is over. -/
theorem Valid.remaining (hv : c.Valid) {t : Task} {rest : List Task} (ht : c.tasks = t :: rest)
    (hover : c.Over t) : c.Remaining rest where
  keeps := hv.not_mem_rest ht fun page kind heq => by
    rw [heq] at hover
    exact hover
  reduces := .ended ht hover

/-- What is left when the first task is to touch pages now. -/
theorem Valid.remaining_touch (hv : c.Valid) {t : Task} {rest : List Task}
    (ht : c.tasks = t :: rest) (hne : ∀ page kind, t ≠ .hold page kind) {next stop : Nat}
    (h : c.Reduces (.touch next stop :: rest)) : c.Remaining (.touch next stop :: rest) where
  keeps page kind hmem :=
    hv.not_mem_rest ht hne page kind ((List.mem_cons.mp hmem).resolve_left nofun)
  reduces := h

/-- A call ends like its last task, or with the text that was copied, or with the process that was
created. -/
theorem runsQuietly_conclude {a : Answer} (hend : c.Reduces [])
    (ha : a = .done ∨ ∃ copy, a = .copied copy ∧ Task.copy copy ∈ c.tasks) :
    c.RunsQuietly (c.conclude a) m := by
  unfold conclude
  split
  · next hpurpose =>
    dsimp only
    cases hsp : c.process.stackPointer? with
    | none => exact ⟨m, .refl m, rfl, Or.inr ⟨.violation .overflow, fun _ _ => hsp, rfl⟩⟩
    | some sp =>
      refine runsQuietly_note (runsQuietly_pure ⟨fun _ => nofun, fun _ => nofun, fun _ => nofun,
        fun p heq => ?_, fun _ _ => nofun⟩ fun _ => nofun)
      cases heq
      exact ⟨rfl, hpurpose, hend⟩
  · next copy hpurpose =>
    refine runsQuietly_pure ⟨fun _ => nofun, fun _ => nofun, fun t heq => ?_, fun _ => nofun,
      fun _ _ => nofun⟩ fun _ => nofun
    cases heq
    obtain ⟨copy', heq, hmem⟩ := ha.resolve_left nofun
    cases heq
    exact ⟨hpurpose, copy, hmem, rfl⟩
  · rcases ha with rfl | ⟨copy, rfl, hmem⟩
    · exact runsQuietly_pure ⟨fun _ => nofun, fun _ => nofun, fun _ => nofun, fun _ => nofun,
        fun _ _ => nofun⟩ fun _ => nofun
    · refine runsQuietly_pure ⟨fun _ => nofun, fun copy' heq => ?_, fun _ => nofun, fun _ => nofun,
        fun _ _ => nofun⟩ fun _ => nofun
      cases heq
      exact hmem

theorem runsQuietly_endTask {a : Answer} {rest : List Task} (hrest : c.Remaining rest)
    (ha : a = .done ∨ ∃ copy, a = .copied copy ∧ Task.copy copy ∈ c.tasks) :
    c.RunsQuietly (c.endTask a rest) m := by
  unfold endTask
  split
  · exact runsQuietly_conclude hrest.reduces ha
  · exact runsQuietly_pure (quiet_withTasks hrest) fun _ => nofun

theorem runsQuietly_endCopy (hv : c.Valid) {copy : Copy} {rest : List Task}
    (ht : c.tasks = .copy copy :: rest)
    (hturn : ∀ piece, copy.turn c.process.layout ≠ .piece piece) :
    c.RunsQuietly (c.endCopy copy rest) m := by
  unfold endCopy
  split
  · exact runsQuietly_fail _
  · next hdone =>
    have hover : c.Over (.copy copy) :=
      ⟨hturn, fun hspawn => Nat.not_lt.mp fun hlt => hdone ⟨hspawn, hlt⟩⟩
    exact runsQuietly_endTask (hv.remaining ht hover)
      (Or.inr ⟨copy, rfl, by rw [ht]; exact List.mem_cons_self⟩)

theorem runsQuietly_beginLoad (hv : c.Valid) {mode : PagingMode} {rest : List Task}
    (ht : c.tasks = .load mode :: rest) : c.RunsQuietly (c.beginLoad mode rest) m := by
  cases mode with
  | demand => exact runsQuietly_note (runsQuietly_endTask (hv.remaining ht rfl) (Or.inl rfl))
  | eager =>
    by_cases hfit : m.kernel.config.frameCount < c.process.numPages
    · refine ⟨m.noted (.doesNotFit c.process.pid c.process.numPages m.kernel.config.frameCount),
        .noted m _, rfl, Or.inr ⟨.error (.insufficientMemory c.process.numPages
          m.kernel.config.frameCount), fun _ => nofun, ?_⟩⟩
      simp only [beginLoad, EStateM.run_bind, EStateM.run_get, hfit, if_true, Action.run_note,
        Action.run_fail]
    · have hrest := hv.remaining_touch ht (fun _ _ => nofun) (.load ht)
      refine ⟨m, .refl m, rfl, Or.inl ⟨.ongoing (c.withTasks (.touch 0 c.process.numPages :: rest)),
        quiet_withTasks hrest, fun _ => nofun, ?_⟩⟩
      simp only [beginLoad, EStateM.run_bind, EStateM.run_get, hfit, if_false, EStateM.run_pure]

/-- A call that wants no page does nothing that matters. -/
theorem runsQuietly_begin (hv : c.Valid) (hwanted : c.wanted? = none) (m : Machine) :
    c.RunsQuietly c.begin m := by
  unfold wanted? at hwanted
  unfold begin
  cases ht : c.tasks with
  | nil => exact runsQuietly_conclude (ht ▸ .same) (Or.inl rfl)
  | cons t rest =>
    cases t with
    | load mode => exact runsQuietly_beginLoad hv ht
    | refuse e => exact runsQuietly_fail e
    | hold page kind =>
      simp only [ht] at hwanted
      contradiction
    | touch next stop =>
      simp only [ht] at hwanted
      split at hwanted
      · contradiction
      · next hlt =>
        dsimp only
        rw [if_neg hlt]
        exact runsQuietly_endTask (hv.remaining ht hlt) (Or.inl rfl)
    | copy copy =>
      cases hturn : copy.turn c.process.layout with
      | piece piece =>
        simp only [ht, hturn] at hwanted
        contradiction
      | complete =>
        simp only [hturn]
        exact runsQuietly_endCopy hv ht (by rw [hturn]; exact fun _ => nofun)
      | outside a =>
        simp only [hturn]
        exact runsQuietly_note (runsQuietly_endCopy hv ht (by rw [hturn]; exact fun _ => nofun))

/-- A call that failed may still have to undo what it made. -/
theorem quiet_afterFailure (hv : c.Valid) (stop : Stop VmError) :
    c.Quiet (c.afterFailure stop) := by
  cases stop with
  | violation v =>
    exact ⟨fun _ => nofun, fun _ => nofun, fun _ => nofun, fun _ => nofun, fun _ _ => nofun⟩
  | error e =>
    unfold afterFailure
    dsimp only
    split
    · next hspawn =>
      exact ⟨⟨rfl, rfl, .same, fun _ _ => hspawn⟩, rfl, fun _ => nofun, hv.hold, fun _ => nofun,
        fun _ => nofun⟩
    · next hplain =>
      exact ⟨fun _ => nofun, fun _ => nofun, fun _ => nofun, fun _ => nofun, fun _ _ _ => hplain⟩

/-- A call violates an assertion if one was violated for it. -/
theorem eq_violation_of_afterFailure {stop : Stop VmError} {v : Violation}
    (h : c.afterFailure stop = .finished (.violated v)) : stop = .violation v := by
  cases stop with
  | violation v' =>
    cases h
    rfl
  | error e =>
    unfold afterFailure at h
    dsimp only at h
    split at h <;> cases h

/-! ## All steps -/

/-- The call is about to ask for its page, in the machine `m'`: it never slept, or it takes its
wake-up. -/
inductive Ready (c : Call) (m : Machine) : Machine → Prop
  | seeking (stage : c.stage = .seeking) : Ready c m m
  | woken {t : Ticket} {room : WaitRoom} {e : Event} (stage : c.stage = .waiting t)
      (parked : m.waiters.park? t = some room) :
      Ready c m ((m.withFrames { m.kernel.frames with waiters := room }).noted e)

/-- Where the call is after an attempt to get at its page. -/
def afterSeek (c : Call) : EStateM.Result (Stop VmError) Machine Grant → Progress × Machine
  | .ok (.pinned f) m => (.ongoing { c with stage := .holding f }, m)
  | .ok (.queued t) m => (.ongoing { c with stage := .waiting t }, m)
  | .error stop m => (c.afterFailure stop, m)

/-- How a call ends whose process was torn down. -/
def afterUndo (e : VmError) : EStateM.Result (Stop VmError) Machine Unit → Progress × Machine
  | .ok () m => (.finished (.failed e none), m)
  | .error stop m => (.finished (Outcome.ofStop stop), m)

/-- What one step of the call can do. -/
inductive Stepped (m : Machine) (l : Ledger) (c : Call) : Progress × Machine → Prop
  /-- The call sleeps and was not woken. -/
  | asleep {t : Ticket} (stage : c.stage = .waiting t) (parked : m.waiters.park? t = none) :
      Stepped m l c (.ongoing c, m)
  /-- The call did not ask for a page. -/
  | quiet {pr : Progress} {m' : Machine} (stage : c.stage = .seeking) (quiet : c.Quiet pr)
      (alike : Alike m m') (waiters : m'.waiters = m.waiters)
      (violated : ∀ v, pr = .finished (.violated v) → c.process.stackPointer? = none) :
      Stepped m l c (pr, m')
  /-- The call asked for the page it wants. -/
  | attempt {m₁ : Machine} {page : PageNumber} {kind : AccessKind}
      {r : EStateM.Result (Stop VmError) Machine Grant} (ready : c.Ready m m₁)
      (wanted : c.wanted? = some (page, kind))
      (resolution : Action.Resolution m₁ l c.process page r)
      (run : (Action.resolve c.process page kind).run m₁ = r) :
      Stepped m l c (c.afterSeek r)
  /-- The call lets go of its frame. -/
  | unpinned {f : FrameNumber} {i : FrameInfo ProcessId} {ts : List Task}
      (frame : c.frame? = some f) (info : m.frameInfo? f = some i) (pins : i.pins ≠ 0)
      (writing : c.writing? = none) (valid : (c.withTasks ts).Valid)
      (continues : c.Continues (c.withTasks ts)) :
      Stepped m l c (.ongoing (c.withTasks ts), m.withFrames (m.kernel.frames.dropPin f i))
  /-- The call ends, and its frame stays pinned. -/
  | kept {f : FrameNumber} {page : PageNumber} {kind : AccessKind} (stage : c.stage = .holding f)
      (wanted : c.wanted? = some (page, kind)) (writing : c.writing? = none) :
      Stepped m l c (.finished (.returned (.pinned ⟨f, page⟩)), m)
  /-- A piece is copied from or to the frame of the call. -/
  | copied {f : FrameNumber} {copy copy' : Copy} {piece : CopyPiece} {rest : List Task}
      {m' : Machine} (stage : c.stage = .holding f) (tasks : c.tasks = .copy copy :: rest)
      (turn : copy.turn c.process.layout = .piece piece)
      (copied : m.Copied m' l c.process copy piece f)
      (valid : ({ c with tasks := .copy copy' :: rest, stage := .leaving f } : Call).Valid)
      (run : (Action.transfer c.process copy piece f).run m = .ok copy' m') :
      Stepped m l c (.ongoing { c with tasks := .copy copy' :: rest, stage := .leaving f }, m')
  /-- The process of the call is torn down. -/
  | undone {e : VmError} {r : EStateM.Result (Stop VmError) Machine Unit}
      (stage : c.stage = .undoing e)
      (departure : Departure (m.noted (.spawnFailed c.process.pid e)) l c.process r) :
      Stepped m l c (afterUndo e r)

/-- A step is what its action makes of the machine. -/
theorem step_of_run_seek {m₁ : Machine} {page : PageNumber} {kind : AccessKind}
    (h : c.proceed.run m = (c.seek page kind).run m₁) :
    c.step m = c.afterSeek ((Action.resolve c.process page kind).run m₁) := by
  unfold step
  rw [h, seek, EStateM.run_bind]
  cases (Action.resolve c.process page kind).run m₁ with
  | error stop m' => rfl
  | ok grant m' => cases grant <;> rfl

section Wanted

variable {page : PageNumber} {kind : AccessKind} (hwanted : c.wanted? = some (page, kind))
include hwanted

/-- A call that wants a page asks for it. -/
theorem begin_of_wanted : c.begin = c.seek page kind := by
  unfold wanted? at hwanted
  unfold begin
  cases ht : c.tasks with
  | nil => simp only [ht] at hwanted; contradiction
  | cons t rest =>
    cases t with
    | load mode => simp only [ht] at hwanted; contradiction
    | refuse e => simp only [ht] at hwanted; contradiction
    | touch next stop =>
      simp only [ht] at hwanted
      split at hwanted
      · next hlt =>
        cases hwanted
        exact if_pos hlt
      · contradiction
    | hold page' kind' =>
      simp only [ht] at hwanted
      cases hwanted
      rfl
    | copy copy =>
      simp only [ht] at hwanted
      cases hturn : copy.turn c.process.layout with
      | piece piece =>
        simp only [hturn] at hwanted ⊢
        cases hwanted
        rfl
      | complete => simp only [hturn] at hwanted; contradiction
      | outside a => simp only [hturn] at hwanted; contradiction

theorem step_of_seeking (hstage : c.stage = .seeking) :
    c.step m = c.afterSeek ((Action.resolve c.process page kind).run m) := by
  refine step_of_run_seek ?_
  rw [proceed, hstage]
  exact congrArg (fun a : Action Progress => a.run m) (begin_of_wanted hwanted)

/-- A call that was woken takes the wake-up and asks for its page again. -/
theorem step_of_woken {t : Ticket} {room : WaitRoom} (hstage : c.stage = .waiting t)
    (hpark : m.waiters.park? t = some room) :
    c.step m = c.afterSeek ((Action.resolve c.process page kind).run
      ((m.withFrames { m.kernel.frames with waiters := room }).noted
        (.woken c.process.pid page))) := by
  have htake : (takeWakeUp t).run m =
      .ok true (m.withFrames { m.kernel.frames with waiters := room }) := by
    refine Action.run_onFrames ?_
    rw [hpark]
  refine step_of_run_seek ?_
  rw [proceed, hstage]
  simp only [retry, EStateM.run_bind, htake, if_true, hwanted, Action.run_note]

omit hwanted in
/-- A call that sleeps and was not woken stays as it is. -/
theorem step_of_asleep {t : Ticket} (hstage : c.stage = .waiting t)
    (hpark : m.waiters.park? t = none) : c.step m = (.ongoing c, m) := by
  have htake : (takeWakeUp t).run m = .ok false m := by
    refine Action.run_onFrames (a := false) (t := m.kernel.frames) ?_
    rw [hpark]
  unfold step
  rw [proceed, hstage]
  simp only [retry, EStateM.run_bind, htake, Bool.false_eq_true, if_false, EStateM.run_pure]

/-- A call that wants a page, is awake and has no frame yet asks for the page. -/
theorem exists_ready (hframe : c.frame? = none) (hundo : ∀ e, c.stage ≠ .undoing e)
    (hawake : c.isAsleep m = false) :
    ∃ m₁, c.Ready m m₁ ∧ c.step m = c.afterSeek ((Action.resolve c.process page kind).run m₁) := by
  cases hstage : c.stage with
  | seeking => exact ⟨m, .seeking hstage, step_of_seeking hwanted hstage⟩
  | waiting t =>
    cases hpark : m.waiters.park? t with
    | none =>
      have hpark' : m.kernel.frames.waiters.park? t = none := hpark
      simp only [isAsleep, hstage, hpark', Option.isNone_none, Bool.true_eq_false] at hawake
    | some room => exact ⟨_, .woken hstage hpark, step_of_woken hwanted hstage hpark⟩
  | holding f =>
    rw [frame?, hstage] at hframe
    contradiction
  | leaving f =>
    rw [frame?, hstage] at hframe
    contradiction
  | undoing e => exact absurd hstage (hundo e)

end Wanted

/-- A call that holds the page of its next piece copies the piece. -/
theorem step_of_transfer {f : FrameNumber} {copy copy' : Copy} {piece : CopyPiece}
    {rest : List Task} {m' : Machine} (hstage : c.stage = .holding f)
    (ht : c.tasks = .copy copy :: rest) (hturn : copy.turn c.process.layout = .piece piece)
    (hrun : (Action.transfer c.process copy piece f).run m = .ok copy' m') :
    c.step m = (.ongoing { c with tasks := .copy copy' :: rest, stage := .leaving f }, m') := by
  unfold step
  rw [proceed, hstage]
  simp only [use, ht, hturn, EStateM.run_bind, hrun, EStateM.run_pure]

/-- A call that is done with its page lets go of it. -/
theorem step_of_leaving {f : FrameNumber} {i : FrameInfo ProcessId} (hstage : c.stage = .leaving f)
    (hi : m.frameInfo? f = some i) (hpins : i.pins ≠ 0) :
    c.step m = (.ongoing { c with stage := .seeking },
      m.withFrames (m.kernel.frames.dropPin f i)) := by
  unfold step
  rw [proceed, hstage]
  simp only [EStateM.run_bind, Action.run_unpin hi hpins, EStateM.run_pure]

/-- A creation that failed tears its process down and ends. -/
theorem step_of_undoing {l : Ledger} (h : m.Sound l) (hp : c.process ∈ l.processes) {e : VmError}
    (hstage : c.stage = .undoing e) : c.step m = afterUndo e
      ((Action.tearDown c.process).run (m.noted (.spawnFailed c.process.pid e))) := by
  have hdepart := Action.tearDown_spec (h.alike (.noted m (.spawnFailed c.process.pid e))) hp
  have hproceed : c.proceed = c.undo e := by rw [proceed, hstage]
  unfold step
  simp only [hproceed, undo, EStateM.run_bind, Action.run_note, EStateM.run_pure]
  cases hrun : (Action.tearDown c.process).run (m.noted (.spawnFailed c.process.pid e)) with
  | ok _ m' => rfl
  | error stop m' =>
    rw [hrun] at hdepart
    cases hdepart
    rfl

section Step

variable {l : Ledger} (h : m.Sound l) (hp : c.process ∈ l.processes) (hv : c.Valid)
  (hr : c.Recorded m) (hf : ∀ f, c.frame? = some f → f ∈ l.pinned)
include h hp hv hr hf

omit h hr hf in
theorem stepped_waiting {t : Ticket} (h : m.Sound l) (hstage : c.stage = .waiting t) :
    Stepped m l c (c.step m) := by
  obtain ⟨page, kind, hwanted⟩ := hv.waiting t hstage
  cases hpark : m.waiters.park? t with
  | none =>
    rw [step_of_asleep hstage hpark]
    exact .asleep hstage hpark
  | some room =>
    let m₁ := (m.withFrames { m.kernel.frames with waiters := room }).noted
      (.woken c.process.pid page)
    rw [step_of_woken hwanted hstage hpark]
    have hm₁ : Alike m m₁ := (Alike.withWaiters m room).trans (.noted _ _)
    exact .attempt (.woken hstage hpark) hwanted (Action.resolve_spec (h.alike hm₁) hp page kind) rfl

section Holding

variable {f : FrameNumber} (hstage : c.stage = .holding f) {rest : List Task}
include hstage

omit h hp hr hf in
/-- A page that only had to be brought in is let go. -/
theorem stepped_touch {next stop : Nat} (ht : c.tasks = .touch next stop :: rest)
    {i : FrameInfo ProcessId} (hi : m.frameInfo? f = some i) (hpins : i.pins ≠ 0) :
    Stepped m l c (c.step m) := by
  have hrest := hv.remaining_touch ht (fun _ _ => nofun) (.touch ht)
  have hstep : c.step m = (.ongoing (c.withTasks (.touch (next + 1) stop :: rest)),
      m.withFrames (m.kernel.frames.dropPin f i)) := by
    unfold step
    rw [proceed, hstage]
    simp only [use, ht, EStateM.run_bind, Action.run_unpin hi hpins, EStateM.run_pure]
  rw [hstep]
  exact .unpinned (by rw [frame?, hstage]) hi hpins (by rw [writing?, hstage, ht])
    (valid_withTasks hrest.keeps) hrest.continues

omit h hp hr hf in
/-- A page that was to be pinned is handed over, and the call ends. -/
theorem stepped_hold {page : PageNumber} {kind : AccessKind}
    (ht : c.tasks = .hold page kind :: rest) (hwanted : c.wanted? = some (page, kind)) :
    Stepped m l c (c.step m) := by
  obtain ⟨hall, hplain⟩ := hv.hold page kind (by rw [ht]; exact List.mem_cons_self)
  rw [ht, List.cons.injEq] at hall
  have hstep : c.step m = (.finished (.returned (.pinned ⟨f, page⟩)), m) := by
    unfold step
    rw [proceed, hstage]
    simp only [use, ht, hall.2, endTask, conclude, hplain, EStateM.run_pure]
  rw [hstep]
  exact .kept hstage hwanted (by rw [writing?, hstage, ht])

omit hr in
/-- A piece is copied, and then the page is let go. -/
theorem stepped_copy {copy : Copy} (ht : c.tasks = .copy copy :: rest) {piece : CopyPiece}
    (hturn : copy.turn c.process.layout = .piece piece) {i : FrameInfo ProcessId}
    (hi : m.frameInfo? f = some i) (howner : i.owner = some c.process.pid)
    (hpage : i.page = piece.page) : Stepped m l c (c.step m) := by
  have hframe : c.frame? = some f := by rw [frame?, hstage]
  have hrest := hv.not_mem_rest ht fun _ _ => nofun
  obtain ⟨copy', m', hrun, hcopied⟩ := Action.transfer_spec h hp (hf f hframe) hi howner hpage
    (Copy.piece_fits hturn) (c := copy)
  rw [step_of_transfer hstage ht hturn hrun]
  refine .copied hstage ht hturn hcopied ⟨fun page kind hmem => ?_, fun _ hnever => ?_,
    fun _ hnever => ?_⟩ hrun
  · exact absurd ((List.mem_cons.mp hmem).resolve_left nofun) (hrest page kind)
  · cases hnever
  · cases hnever

theorem stepped_holding : Stepped m l c (c.step m) := by
  have hframe : c.frame? = some f := by rw [frame?, hstage]
  obtain ⟨page, kind, hwanted⟩ := hv.holding f hstage
  obtain ⟨i, hi, howner, hpage⟩ := hr f hframe
  replace hpage := hpage page kind hstage hwanted
  obtain ⟨j, hj, hpins, -⟩ := h.info_of_pinned (hf f hframe)
  rw [hi, Option.some.injEq] at hj
  subst hj
  have hwanted' := hwanted
  unfold wanted? at hwanted
  cases ht : c.tasks with
  | nil =>
    rw [ht] at hwanted
    contradiction
  | cons t rest =>
    rw [ht] at hwanted
    cases t with
    | load mode => contradiction
    | refuse e => contradiction
    | touch next stop => exact stepped_touch hv hstage ht hi hpins
    | hold page' kind' =>
      simp only [Option.some.injEq, Prod.mk.injEq] at hwanted
      obtain ⟨rfl, rfl⟩ := hwanted
      exact stepped_hold hv hstage ht hwanted'
    | copy copy =>
      cases hturn : copy.turn c.process.layout with
      | complete =>
        simp only [hturn] at hwanted
        contradiction
      | outside a =>
        simp only [hturn] at hwanted
        contradiction
      | piece piece =>
        simp only [hturn, Option.some.injEq, Prod.mk.injEq] at hwanted
        exact stepped_copy h hp hv hf hstage ht hturn hi howner (hpage.trans hwanted.1.symm)

end Holding

/-- **Every step is one of those listed.** -/
theorem step_spec : Stepped m l c (c.step m) := by
  cases hstage : c.stage with
  | seeking =>
    cases hwanted : c.wanted? with
    | some w =>
      rw [step_of_seeking hwanted hstage]
      exact .attempt (.seeking hstage) hwanted (Action.resolve_spec h hp w.1 w.2) rfl
    | none =>
      obtain ⟨m', halike, hwaiters, hrun⟩ := runsQuietly_begin hv hwanted m
      have hproceed : c.proceed = c.begin := by rw [proceed, hstage]
      unfold step
      rw [hproceed]
      rcases hrun with ⟨pr, hquiet, hne, hrun⟩ | ⟨stop, hviolates, hrun⟩
      · rw [hrun]
        exact .quiet hstage hquiet halike hwaiters fun v hpr => absurd hpr (hne v)
      · rw [hrun]
        refine .quiet hstage (quiet_afterFailure hv stop) halike hwaiters fun v hpr => ?_
        exact hviolates _ (eq_violation_of_afterFailure hpr)
  | waiting t => exact stepped_waiting hp hv h hstage
  | holding f => exact stepped_holding h hp hv hr hf hstage
  | leaving f =>
    have hframe : c.frame? = some f := by rw [frame?, hstage]
    obtain ⟨i, hi, hpins, -⟩ := h.info_of_pinned (hf f hframe)
    rw [step_of_leaving hstage hi hpins]
    change Stepped m l c (.ongoing (c.withTasks c.tasks), _)
    exact .unpinned hframe hi hpins (by rw [writing?, hstage])
      ⟨hv.hold, fun _ => nofun, fun _ => nofun⟩
      ⟨rfl, rfl, .same, fun _ hundo => (by cases hundo)⟩
  | undoing e =>
    rw [step_of_undoing h hp hstage]
    exact .undone hstage (Action.tearDown_spec (h.alike (.noted m _)) hp)

end Step

end Call

end DemandPaging
