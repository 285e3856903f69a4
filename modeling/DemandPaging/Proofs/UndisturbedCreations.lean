import DemandPaging.Proofs.ArgumentLimit
import DemandPaging.Proofs.Arguments
import DemandPaging.Proofs.UndisturbedCopies

/-!
# Creations that nobody disturbs

To create a process whose pages are left to demand paging, its arguments are written to its last page
and no other page is needed. Each write is one round on a machine that is ready for the next one, so if
nothing else happens the process is created (`Machine.Ready.exists_spawn`).
-/

namespace DemandPaging

open Machine

/-- The executable provides all pages that the layout takes from it. -/
def Executable.Provides (image : Executable) (l : Layout) : Prop :=
  ∀ page index k, l.source? page = some (.fromSection index k) →
    ∃ content, image.page index k = .ok content

theorem UserProcess.exists_initialContent {p : UserProcess} (h : p.image.Provides p.layout)
    {page : PageNumber} (hpage : p.contains page = true) :
    ∃ content, p.initialContent page = .ok content := by
  obtain ⟨source, hsource⟩ := p.layout.exists_source hpage
  unfold initialContent
  rw [hsource]
  cases source with
  | zeroFill => exact ⟨_, rfl⟩
  | fromSection index k =>
    obtain ⟨content, hcontent⟩ := h page index k hsource
    exact ⟨content, by simp only [hcontent]; rfl⟩

/-- A write that does not leave its page and is not done has one piece to go. -/
theorem Copy.Lays.exists_turn {c : Copy} {page : PageNumber} {l : Layout} (h : c.Lays page)
    (hpage : l.contains page = true) (hlt : c.done < c.length) :
    ∃ piece, c.turn l = .piece piece := by
  have hfits := h.fits
  have hstart := c.start.toNat_eq
  have hlast := c.start.page_lt
  obtain ⟨a, ha, htoNat⟩ := @VirtualAddress.exists_add?_of_lt c.start c.done (by
    simp only [pageSize, wordBound, maxProcessPages] at *
    omega)
  obtain ⟨hsame, -⟩ := VirtualAddress.page_offset_of_toNat htoNat (by omega)
  exact ⟨_, turn_eq_piece.mpr ⟨hlt, a, ha, by rw [hsame, h.page, hpage], rfl⟩⟩

namespace Call

variable {m m₁ m' : Machine} {l : Ledger} {p : UserProcess} {t : Task} {rest ts : List Task} {n : Nat}
  {o : Outcome} {a : Answer}

/-- The tasks write to the argument page of `p` and do nothing else. -/
def LaysArguments (p : UserProcess) (ts : List Task) : Prop :=
  ∀ t ∈ ts, ∃ copy, t = .copy copy ∧ copy.Lays p.layout.argumentPage

/-- A creation that has nothing left to do ends with its process. -/
theorem step_of_concludes (hargv : p.layout.stackTop? = some p.argv) {c : Call} (a : Answer)
    (hc : c.process = p ∧ c.purpose = .spawn ∧ c.stage = .seeking)
    (hbegin : c.begin.run m = (c.conclude a).run m₁) :
    c.step m = (.finished (.returned (.spawned p)),
      m₁.noted (.spawned p.pid p.numPages p.mode p.entryPoint p.argv)) := by
  obtain ⟨rfl, hpurpose, hstage⟩ := hc
  have hsp : c.process.stackPointer? = some c.process.argv := hargv
  refine step_of_run ?_
  rw [proceed, hstage]
  dsimp only
  rw [hbegin]
  simp only [conclude, hpurpose, hsp, EStateM.run_bind, Action.run_note, EStateM.run_pure]

/-- When a task of a creation is over, the creation goes on with the other tasks. -/
theorem runFor_of_over (hargv : p.layout.stackTop? = some p.argv)
    (hbegin : (begin ⟨p, .spawn, t :: rest, .seeking⟩).run m =
      (endTask ⟨p, .spawn, t :: rest, .seeking⟩ a rest).run m₁)
    (h : ∀ k, runFor (k + (n + 1)) ⟨p, .spawn, rest, .seeking⟩ m₁ = (.finished o, m')) (k : Nat) :
    runFor (k + (n + 2)) ⟨p, .spawn, t :: rest, .seeking⟩ m = (.finished o, m') := by
  cases rest with
  | nil =>
    have hend := h k
    rw [← Nat.add_assoc,
      runFor_of_finished (step_of_concludes hargv .done ⟨rfl, rfl, rfl⟩ rfl)] at hend
    exact (runFor_of_finished (step_of_concludes hargv a ⟨rfl, rfl, rfl⟩ hbegin) _).trans hend
  | cons t' rest =>
    have hstep : step ⟨p, .spawn, t :: t' :: rest, .seeking⟩ m =
        (.ongoing ⟨p, .spawn, t' :: rest, .seeking⟩, m₁) := by
      refine step_of_run ?_
      rw [proceed]
      dsimp only
      rw [hbegin]
      rfl
    rw [show k + (n + 2) = k + (n + 1) + 1 from rfl, runFor_of_ongoing hstep rfl]
    exact h k

/-- **A creation writes its arguments and ends**, if nobody disturbs it. -/
theorem exists_runFor_of_laysArguments (hargv : p.layout.stackTop? = some p.argv)
    (hsource : p.layout.source? p.layout.argumentPage = some .zeroFill) (hts : LaysArguments p ts)
    (h : m.Readable l p) :
    ∃ m', m.StaysReady m' l ∧ ∀ k, runFor (k + (4 * ts.length + 1)) ⟨p, .spawn, ts, .seeking⟩ m =
      (.finished (.returned (.spawned p)), m') := by
  induction ts generalizing m with
  | nil =>
    exact ⟨_, h.ready.noted _,
      fun k => runFor_of_finished (step_of_concludes hargv .done ⟨rfl, rfl, rfl⟩ rfl) k⟩
  | cons t ts ih =>
    obtain ⟨copy, rfl, hlays⟩ := hts t List.mem_cons_self
    have hrest : LaysArguments p ts := fun t ht => hts t (List.mem_cons_of_mem _ ht)
    by_cases hdone : copy.length ≤ copy.done
    · obtain ⟨m', hstays, hrun⟩ := ih hrest h
      refine ⟨m', hstays, fun k => ?_⟩
      rw [List.length_cons, show k + (4 * (ts.length + 1) + 1) = k + 3 + (4 * ts.length + 2) by omega]
      exact runFor_of_over hargv (congrArg (EStateM.run · m) (begin_of_copied rfl hdone)) hrun (k + 3)
    · have hpage : p.layout.contains p.layout.argumentPage = true :=
        Decidable.not_not.mp fun hnot => nomatch (if_neg hnot).symm.trans hsource
      have hwritable : m.readOnly? p p.layout.argumentPage = some false := by
        rw [h.marked, hsource]
        rfl
      obtain ⟨piece, hturn⟩ := hlays.exists_turn hpage (Nat.not_le.mp hdone)
      obtain ⟨hsame, -, -, hpending, hlays'⟩ := hlays.piece hturn
      obtain ⟨copy', m₁, hvisited, hround⟩ :=
        @exists_round m l p copy piece .spawn ts h hturn fun _ => hsame ▸ hwritable
      have hdone' : copy'.length ≤ copy'.done := by
        obtain ⟨old, -, ⟨hread, -⟩ | ⟨-, rfl, -⟩⟩ := hvisited.copied
        · cases hlays.kind.symm.trans hread
        · have hall := hlays'.pending
          rw [hpending, List.length_nil] at hall
          exact Nat.le_of_eq hall.symm
      obtain ⟨m', hstays, hrun⟩ := ih hrest (h.next hvisited.stays)
      refine ⟨m', hvisited.stays.trans hstays, fun k => ?_⟩
      rw [List.length_cons, show k + (4 * (ts.length + 1) + 1) = k + (4 * ts.length + 2) + 3 by omega,
        hround]
      exact runFor_of_over hargv (congrArg (EStateM.run · m₁) (begin_of_copied rfl hdone')) hrun k

/-- The time that a creation is given suffices to write the arguments. -/
theorem le_stepsLeft (hts : LaysArguments p ts) (mode : PagingMode) :
    4 * ts.length + 2 ≤ stepsLeft ⟨p, .spawn, .load mode :: ts, .seeking⟩ := by
  suffices 4 * ts.length ≤ ts.foldr (fun t n => taskSteps p t + n) 5 by
    change 4 * ts.length + 2 ≤ 3 * p.numPages + 6 + ts.foldr (fun t n => taskSteps p t + n) 5
    omega
  induction ts with
  | nil => exact Nat.zero_le _
  | cons t ts ih =>
    obtain ⟨copy, rfl, -⟩ := hts t List.mem_cons_self
    have hle := ih fun t ht => hts t (List.mem_cons_of_mem _ ht)
    rw [List.length_cons, List.foldr_cons, taskSteps]
    omega

end Call

namespace ArgumentBlock

/-- Arguments that fit are written to the page of their table, and none of them is refused, unless
there is no address behind them. -/
theorem laysArguments_steps {p : UserProcess} {sections : List Section} {stackPages : Nat}
    {args : List Bytes} (hlayout : Layout.ofSections sections stackPages = .ok p.layout)
    (hargv : p.layout.stackTop? = some p.argv) (hsize : size args ≤ maxArgumentBytes)
    (hbrims : ¬ p.layout.Brims args) :
    Call.LaysArguments p ((steps p.argv args).map ArgumentStep.toTask) := by
  obtain ⟨hpage, hoffset, -, -⟩ := PageNumber.base?_spec hargv
  have hnone := Layout.refusals_steps hlayout hargv hsize
  rw [if_neg hbrims] at hnone
  intro t ht
  obtain ⟨step, hstep, rfl⟩ := List.mem_map.mp ht
  cases step with
  | write a bytes => exact ⟨_, rfl, hpage ▸ lays_steps hoffset hsize ht⟩
  | tooLong n => cases List.filterMap_eq_nil_iff.mp hnone _ ht

end ArgumentBlock

namespace Machine

variable {m m₁ m' : Machine} {l : Ledger} {p q : UserProcess} {t : PageTable} {image : Executable}
  {layout : Layout} {args : List Bytes}

/-- The process `p` was made from `image`. Its pages can be read, and all other processes are as they
were. -/
structure Welcomes (m m' : Machine) (l : Ledger) (image : Executable) (p : UserProcess) : Prop where
  made : p.image = image
  placed : Layout.ofSections image.sections m.kernel.config.stackPages = .ok p.layout
  readable : m'.Readable { l with processes := l.processes ++ [p] } p
  fresh : ∀ q ∈ l.processes, q.pid ≠ p.pid
  registry : ∀ pid : ProcessId, m'.process? pid = if pid = p.pid then some p else m.process? pid
  size : m'.kernel.frames.directory.size = m.kernel.frames.directory.size
  config : m'.kernel.config = m.kernel.config
  older : ∀ q ∈ l.processes, ∀ page, m'.readOnly? q page = m.readOnly? q page

/-- The pages of the older processes can be read as before. -/
theorem Welcomes.readable_of_readable (hp : m.Welcomes m' l image p) (h : m.Readable l q) :
    m'.Readable { l with processes := l.processes ++ [p] } q := by
  have hq := h.ready.sound.census.mem h.registered
  refine ⟨hp.readable.ready, ?_, fun page => (hp.older q hq page).trans (h.marked page), h.provided⟩
  rw [Registered, hp.registry, if_neg (hp.fresh q hq)]
  exact h.registered

/-- A process that has just joined a machine that is ready can be read. -/
theorem Ready.welcomes (h : m.Ready l) (hroom : l.processes.length + 1 < wordBound)
    (hpid : p.pid = m.kernel.nextPid) (hindex : p.table.index = m.tables.size)
    (hfits : t.size ≤ wordBound) (habsent : ∀ page e, t.get? page = some e → e.frame? = none)
    (hlayout : Layout.ofSections p.image.sections m.kernel.config.stackPages = .ok p.layout)
    (ht : UserProcess.initialTable p.image p.layout = .ok t) (hprovides : p.image.Provides p.layout) :
    m.Welcomes (m.joined p t) l p.image p := by
  have hsound := h.sound.joined hroom hpid hindex hfits habsent
  refine ⟨rfl, hlayout, ⟨⟨hsound, h.intact, h.store, h.small, h.idle, h.pins⟩, ?_, fun page => ?_,
    fun page hpage => UserProcess.exists_initialContent hprovides hpage⟩,
    fun q hq heq => h.sound.census.pid_ne_nextPid hroom hq (heq.trans hpid), process?_joined m p t, rfl,
    rfl, fun q hq page => ?_⟩
  · rw [Registered, process?_joined, if_pos rfl]
  · rw [readOnly?, entryOf?, table_joined_self hindex, UserProcess.get?_initialTable hlayout ht,
      Option.map_map]
    refine congrArg (Option.map · _) (funext fun source => ?_)
    simp
  · rw [readOnly?, entryOf?, table_joined_of_mem h.sound hq]
    rfl

theorem Welcomes.next (hp : m.Welcomes m₁ l image p)
    (hstays : m₁.StaysReady m' { l with processes := l.processes ++ [p] }) :
    m.Welcomes m' l image p where
  made := hp.made
  placed := hp.placed
  readable := hp.readable.next hstays
  fresh := hp.fresh
  registry pid := (hstays.registry pid).trans (hp.registry pid)
  size := hstays.size.trans hp.size
  config := hstays.config.trans hp.config
  older q hq page := (hstays.readOnly q (List.mem_append_left _ hq) page).trans (hp.older q hq page)

/-- **A creation that nobody disturbs succeeds**: the process is there with its arguments, and its
pages can be read. -/
theorem Ready.exists_spawn (h : m.Ready l) (hroom : l.processes.length + 1 < wordBound)
    (hlayout : Layout.ofSections image.sections m.kernel.config.stackPages = .ok layout)
    (hprovides : image.Provides layout) (hsize : ArgumentBlock.size args ≤ maxArgumentBytes)
    (hbrims : ¬ layout.Brims args) :
    ∃ p m', m.spawn image args .demand = (.finished (.returned (.spawned p)), m') ∧
      m.Welcomes m' l image p := by
  have hbirth := Action.spawn_spec m image args .demand
  rw [spawn]
  generalize (Action.spawn image args .demand).run m = r at hbirth
  cases hbirth with
  | refused cause =>
    rcases cause with hnone | ⟨-, hlong, -⟩
    · cases hlayout.symm.trans hnone
    · exact absurd hlong (Nat.not_lt.mpr hsize)
  | @begun p t pid index himage fits absent placed table argv argc size =>
    subst himage
    cases hlayout.symm.trans placed
    have hwelcomes := h.welcomes hroom pid index fits absent placed table hprovides
    have hts := ArgumentBlock.laysArguments_steps placed argv hsize hbrims
    have hstays := hwelcomes.readable.ready.noted (.leftToDemand p.pid p.numPages)
    have hnoted := hwelcomes.next hstays
    obtain ⟨m', hready, hrun⟩ :=
      Call.exists_runFor_of_laysArguments argv (Layout.source?_argumentPage placed) hts hnoted.readable
    obtain ⟨k, hk⟩ := Nat.exists_eq_add_of_le' (Call.le_stepsLeft hts .demand)
    refine ⟨p, m', ?_, hnoted.next hready⟩
    dsimp only
    rw [Call.run, hk]
    exact @Call.runFor_of_over (m.joined p t) _ m' p (.load .demand) _ _ _ .done argv rfl hrun k

end Machine

end DemandPaging
