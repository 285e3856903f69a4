import Mathlib.Algebra.Order.BigOperators.Group.List
import Mathlib.Data.Nat.Digits.Defs
import DemandPaging.Proofs.Consistency
import DemandPaging.Proofs.SimulatedWork
import DemandPaging.Proofs.Texts
import DemandPaging.Proofs.UndisturbedCreations

/-!
# Simulations

A simulation creates its processes one after the other (`exists_spawnAll`), lets them work, and tears
them down again, after which every frame is free (`exists_releaseAll`). If its pages are left to demand
paging, no simulation reports a mismatch, in whatever order the processes work
(`every_simulation_succeeds`).
-/

namespace DemandPaging

open Machine

/-! ## Executables of zeroes -/

theorem Layout.ofSections_zeroes {name : String} {pages stackPages : Nat}
    (h : pages + stackPages + argumentPages ≤ maxProcessPages) :
    ofSections (Executable.zeroes name pages).sections stackPages =
      .ok ⟨[⟨0, pages⟩], pages, pages + stackPages + argumentPages⟩ := by
  have hbound : maxProcessPages < sizeBound := by decide
  have hplace : place (Executable.zeroes name pages).sections 0 0 = .ok ([⟨0, pages⟩], 0 + pages) :=
    place_cons_eq_ok.mpr ⟨rfl, (by omega : 0 + pages < sizeBound), [], rfl, rfl⟩
  rw [ofSections, hplace, Nat.zero_add]
  simp only [bind, Except.bind, if_neg (show ¬ sizeBound ≤ pages + stackPages + argumentPages by omega),
    if_neg (Nat.not_lt.mpr h)]

/-- The pages of an executable of zeroes can be had. -/
theorem Executable.provides_zeroes (name : String) (pages codePages numPages : Nat) :
    (zeroes name pages).Provides ⟨[⟨0, pages⟩], codePages, numPages⟩ := by
  intro page index k hsource
  obtain ⟨-, hin⟩ := Option.ite_none_right_eq_some.mp hsource
  rw [Option.some.injEq] at hin
  unfold Layout.sourceIn at hin
  split at hin
  · next hcontains =>
    cases hin
    have hlt : page.toNat < 0 + pages := (PageRange.contains_iff.mp hcontains).2
    have hk : ¬ pages ≤ page.toNat - 0 := by omega
    have hnear : ¬ sizeBound ≤ (page.toNat - 0) * pageSize := by
      have hword : page.toNat < wordBound := page.val.toNat_lt
      simp only [wordBound, sizeBound, pageSize] at *
      omega
    refine ⟨Page.zero, ?_⟩
    simp only [zeroes, ne_eq, not_true, if_false, if_neg hk, if_neg hnear]
  · cases hin

/-! ## Arguments -/

theorem length_textBytes_le (s : String) : (textBytes s).length ≤ 4 * s.length := by
  rw [textBytes_eq, List.length_flatMap, ← String.length_toList, Nat.mul_comm]
  refine le_of_le_of_eq (List.sum_le_card_nsmul _ 4 fun n hn => ?_) (by rw [List.length_map]; rfl)
  obtain ⟨c, -, rfl⟩ := List.mem_map.mp hn
  exact (String.length_utf8EncodeChar c).symm ▸ c.utf8Size_le_four

/-- The arguments of a simulated process are far from filling their page. -/
theorem Simulator.size_arguments_lt {index : Nat} (h : index < wordBound) :
    ArgumentBlock.size (["vmsim", toString index].map textBytes) < maxArgumentBytes := by
  have hname : (textBytes "vmsim").length ≤ 4 * 5 := length_textBytes_le "vmsim"
  have hdigits : (toString index).length ≤ 10 :=
    Nat.repr_length index 10 (by decide) (Nat.lt_trans h (by decide))
  have hnumber := length_textBytes_le (toString index)
  simp only [List.map_cons, List.map_nil, ArgumentBlock.size, argumentPointerSize, maxArgumentBytes,
    argumentPages, pageSize]
  omega

namespace Simulator

variable {o : Options} {m m' : Machine} {p q : UserProcess} {ps qs : List UserProcess} {index n : Nat}

/-! ## The memory manager starts -/

/-- A machine that has just started is ready. -/
theorem exists_boot (hframes : 1 ≤ o.frames) (hfew : o.frames ≤ maxEntryFrame + 1) :
    ∃ m, Machine.boot (Config.default.withFrameCount o.frames) (.empty none) = .ok m ∧
      m.Ready ⟨[], [], [], []⟩ ∧ m.kernel.config.stackPages = defaultStackPages ∧
      m.kernel.frames.directory.size = o.frames := by
  let config := Config.default.withFrameCount o.frames
  have hpos : config.frameCount ≠ 0 := Nat.ne_of_gt hframes
  have hword : config.frameCount ≤ wordBound := Nat.le_trans hfew (by decide)
  have hboot : Machine.boot config (.empty none) = .ok (started config (.empty none)) := by
    rw [Machine.boot, Kernel.boot, if_neg hpos, FrameTable.ofSize?, if_pos hword]
    rfl
  have hsize : (started config (.empty none)).kernel.frames.directory.size = o.frames :=
    Array.size_replicate
  have hsound := System.sound_started hword (.empty none)
  have hpins : ∀ f i, (started config (.empty none)).frameInfo? f = some i → i.pins = 0 :=
    fun f i hi => hsound.agreement.pins f i hi
  refine ⟨_, hboot, ⟨hsound, rfl, ⟨rfl, fun _ => rfl⟩, hsize ▸ hfew, fun hidle => ?_, fun f i hi => ?_⟩,
    rfl, hsize⟩
  · have hzero : (started config (.empty none)).frameInfo? ⟨0⟩ = some .free :=
      (Directory.get?_ofSize ..).trans (if_pos hframes)
    exact (Directory.idle_eq_zero hsound.pool.size_le).mp hidle _ _ hzero (hpins _ _ hzero)
  · rw [hpins f i hi]
    decide

/-! ## The processes are created -/

/-- The process is one of those that the simulation creates, and its pages can be read. -/
structure Simulated (o : Options) (m : Machine) (ps : List UserProcess) (p : UserProcess) : Prop where
  readable : m.Readable ⟨ps, [], [], []⟩ p
  image : p.image = .zeroes ".data" o.pages
  numPages : p.numPages = o.pages + defaultStackPages + argumentPages

section Creation

variable (hmode : o.mode = .demand)
  (hpages : o.pages + defaultStackPages + argumentPages ≤ maxProcessPages)
include hmode hpages

/-- One more process is created. -/
theorem exists_spawnOne (h : m.Ready ⟨qs, [], [], []⟩)
    (hconfig : m.kernel.config.stackPages = defaultStackPages)
    (hroom : qs.length + 1 < wordBound) (hindex : index < wordBound) :
    ∃ p m', spawnOne o index m = (.ok p, m') ∧
      m.Welcomes m' ⟨qs, [], [], []⟩ (.zeroes ".data" o.pages) p := by
  have hbytes : ¬ sizeBound ≤ 2 * (o.pages * pageSize) := by
    simp only [maxProcessPages, pageSize, sizeBound] at *
    omega
  have hsize := size_arguments_lt hindex
  obtain ⟨p, m', hrun, hwelcomes⟩ := @Ready.exists_spawn m _ _ _
    (["vmsim", toString index].map textBytes) h hroom
    (by rw [hconfig]; exact Layout.ofSections_zeroes hpages)
    (Executable.provides_zeroes ".data" o.pages _ _) (Nat.le_of_lt hsize)
    fun hbrims => Nat.ne_of_lt hsize hbrims.2
  have hrun' : m.spawn (.zeroes ".data" o.pages)
      (["vmsim", toString index].map fun s => s.toUTF8.toList) o.mode =
        (.finished (.returned (.spawned p)), m') := hmode.symm ▸ hrun
  refine ⟨p, m', ?_, hwelcomes⟩
  rw [spawnOne, if_neg hbytes]
  dsimp only
  rw [hrun']

/-- **All processes are created.** -/
theorem exists_spawnAll (h : m.Ready ⟨qs, [], [], []⟩)
    (hconfig : m.kernel.config.stackPages = defaultStackPages)
    (hqs : ∀ q ∈ qs, Simulated o m qs q)
    (hroom : qs.length + n < wordBound) (hindex : index + n ≤ wordBound) :
    ∃ ps m', spawnAll o n index m = (.ok ps, m') ∧ ps.length = n ∧
      m'.Ready ⟨qs ++ ps, [], [], []⟩ ∧ (∀ p ∈ qs ++ ps, Simulated o m' (qs ++ ps) p) ∧
      m'.kernel.frames.directory.size = m.kernel.frames.directory.size := by
  induction n generalizing m qs index with
  | zero =>
    refine ⟨[], m, rfl, rfl, ?_, ?_, rfl⟩ <;> rw [List.append_nil] <;> assumption
  | succ n ih =>
    obtain ⟨p, m₁, hone, hwelcomes⟩ :=
      @exists_spawnOne o m qs index hmode hpages h hconfig (by omega) (by omega)
    have hplaced := hwelcomes.placed
    rw [hconfig, Layout.ofSections_zeroes hpages, Except.ok.injEq] at hplaced
    have hp : Simulated o m₁ (qs ++ [p]) p :=
      ⟨hwelcomes.readable, hwelcomes.made, (congrArg Layout.numPages hplaced).symm⟩
    have hqs₁ : ∀ q ∈ qs ++ [p], Simulated o m₁ (qs ++ [p]) q := fun q hq => by
      cases List.mem_append.mp hq with
      | inl hold =>
        obtain ⟨hreadable, himage, hnum⟩ := hqs q hold
        exact ⟨hwelcomes.readable_of_readable hreadable, himage, hnum⟩
      | inr hnew => exact List.mem_singleton.mp hnew ▸ hp
    obtain ⟨ps, m', hall, hlength, hready, hps, hsize⟩ := @ih m₁ (qs ++ [p]) (index + 1)
      hwelcomes.readable.ready (by rw [hwelcomes.config]; exact hconfig) hqs₁
      (by rw [List.length_append, List.length_singleton]; omega) (by omega)
    rw [List.append_assoc] at hready hps
    refine ⟨p :: ps, m', ?_, by rw [List.length_cons, hlength], hready, hps,
      hsize.trans hwelcomes.size⟩
    rw [spawnAll, hone]
    dsimp only
    rw [hall]
    rfl

end Creation

/-! ## The processes begin to work -/

/-- The patterns of all processes, pages and rounds of the simulation can be computed. -/
def Patterned (o : Options) : Prop :=
  ∀ (pid : ProcessId) (page : PageNumber) (round : Nat), 0 < pid.toNat → pid.toNat ≤ o.processes →
    page.toNat < o.pages → round < o.rounds → patternSeed pid page round < sizeBound

/-- It is enough that there are not too many rounds. -/
theorem patterned_of_rounds (h : o.rounds + wordBound ≤ sizeBound + 1) : Patterned o := by
  intro pid page round _ _ _ hround
  have hlt : (pid.val * 31 + page.val * 7).toNat < wordBound := UInt32.toNat_lt _
  rw [patternSeed]
  omega

/-- A process that has yet to do its work is on track. -/
theorem onTrack_of_simulated (hpages : o.pages + defaultStackPages + argumentPages ≤ maxProcessPages)
    (hpatterned : Patterned o) {i : Nat} (hi : ps[i]? = some p) (hlength : ps.length = o.processes)
    (h : Simulated o m ps p) :
    Worker.OnTrack ⟨p, accesses o.pages o.rounds, 0, none⟩ m ⟨ps, [], [], []⟩ fun _ => none := by
  have hword : maxProcessPages < wordBound := by decide
  refine ⟨h.readable, h.numPages ▸ hpages, fun source => ?_, rfl, rfl, fun a ha => ?_,
    faithful_accesses _ _ _, fun _ _ hnone => nomatch hnone⟩
  · rw [h.image]
    cases source <;> rfl
  · obtain ⟨hround, k, hk, hpage⟩ := of_mem_accesses ha
    have htoNat : a.page.toNat = k := by
      rw [hpage]
      exact PageNumber.toNat_ofNat (by omega)
    have hpid : p.pid.toNat = i + 1 := by
      have hlt := (List.getElem?_eq_some_iff.mp hi).1
      have hfew := h.readable.ready.sound.census.few
      rw [(h.readable.ready.sound.census.identity i p hi).1]
      exact Nat.mod_eq_of_lt (Nat.lt_of_le_of_lt hlt hfew)
    refine ⟨decide_eq_true ?_, _, if_pos (hpatterned p.pid a.page a.round ?_ ?_ ?_ hround)⟩
    · change a.page.toNat < p.numPages
      rw [h.numPages]
      omega
    · omega
    · have hlt := (List.getElem?_eq_some_iff.mp hi).1
      omega
    · omega

/-- A worker begins with all its work before it. -/
theorem exists_of_workers (hpages : o.pages + defaultStackPages + argumentPages ≤ maxProcessPages)
    {i : Nat} {w : Worker} (hw : (workers o ps)[i]? = some w) :
    ∃ p, ps[i]? = some p ∧ w = ⟨p, accesses o.pages o.rounds, 0, none⟩ := by
  have hmin : min o.pages (wordBound - 1) = o.pages := by
    simp only [maxProcessPages, wordBound] at *
    omega
  rw [workers, List.getElem?_map, hmin, Option.map_eq_some_iff] at hw
  obtain ⟨p, hp, rfl⟩ := hw
  exact ⟨p, hp, rfl⟩

/-- Before they begin to work, all workers are on track. -/
theorem team_workers (hpages : o.pages + defaultStackPages + argumentPages ≤ maxProcessPages)
    (hpatterned : Patterned o) (hlength : ps.length = o.processes) (h : m.Ready ⟨ps, [], [], []⟩)
    (hps : ∀ p ∈ ps, Simulated o m ps p) : Team (workers o ps) m ⟨ps, [], [], []⟩
      (lastFilled (fun _ => none) (accesses o.pages o.rounds)) := by
  refine ⟨h, fun i w hw => ?_, fun i j v w hv hw hpid => ?_⟩
  · obtain ⟨p, hp, rfl⟩ := exists_of_workers hpages hw
    exact ⟨_, onTrack_of_simulated hpages hpatterned hp hlength (hps p (List.mem_of_getElem? hp)), rfl⟩
  · obtain ⟨p, hp, rfl⟩ := exists_of_workers hpages hv
    obtain ⟨q, hq, rfl⟩ := exists_of_workers hpages hw
    have hsame := h.sound.census.eq_of_pid (List.mem_of_getElem? hp) (List.mem_of_getElem? hq) hpid
    rw [← (h.sound.census.identity i p hp).2, ← (h.sound.census.identity j q hq).2, hsame]

/-! ## The processes are torn down -/

/-- Without pins every process can be torn down. -/
theorem exists_releaseAll (h : m.Sound ⟨qs, [], [], []⟩) (hsub : ∀ p ∈ ps, p ∈ qs) :
    ∃ m', (releaseAll ps).run m = .ok () m' ∧ m'.Sound ⟨qs, [], [], []⟩ ∧
      m'.kernel.frames.directory.size = m.kernel.frames.directory.size ∧
      ∀ pid, m'.process? pid ≠ none → m.process? pid ≠ none ∧ pid ∉ ps.map (·.pid) := by
  induction ps generalizing m with
  | nil => exact ⟨m, rfl, h, rfl, fun pid hpid => ⟨hpid, List.not_mem_nil⟩⟩
  | cons p ps ih =>
    have hspec := Action.tearDown_spec h (hsub p List.mem_cons_self)
    generalize hrun : (Action.tearDown p).run m = r at hspec
    cases hspec with
    | stopped sound keeps idle waiters orderly clings =>
      -- nobody has a pin that could stop the teardown
      obtain ⟨f, i, hi, -, -, hpins, -⟩ := clings
      exact absurd (h.agreement.pins f i hi) hpins
    | @gone m₁ sound keeps idle waiters orderly unowned uncopied =>
      obtain ⟨m', hall, hsound, hsize, hdead⟩ := ih sound fun q hq => hsub q (List.mem_cons_of_mem _ hq)
      refine ⟨m', ?_, hsound, hsize.trans orderly.size, fun pid hpid => ?_⟩
      · rw [releaseAll, EStateM.run_bind, hrun]
        exact hall
      · obtain ⟨hliving, hnot⟩ := hdead pid hpid
        rw [keeps.registry, process?_without] at hliving
        split at hliving
        · exact absurd rfl hliving
        · next hne => exact ⟨hliving, fun hmem => (List.mem_cons.mp hmem).elim hne hnot⟩

/-- When nobody lives, every frame is free. -/
theorem freeCount_of_dead (h : m.Sound ⟨qs, [], [], []⟩) (hdead : ∀ pid, m.process? pid = none) :
    m.kernel.frames.freeCount = m.kernel.frames.directory.size := by
  have hcount := h.pool.freeCount_add_ownedCount
  have hnobody : m.kernel.frames.ownedCount = 0 := by
    refine List.countP_eq_zero.mpr fun x hx => ?_
    have hi := (Directory.mem_toList h.pool.size_le).mp hx
    cases howner : x.2.owner with
    | none => rw [FrameInfo.isFree, howner]; decide
    | some pid =>
      rcases h.agreement.owned x.1 x.2 pid hi howner with hliving | hbroken
      · exact absurd (hdead pid) hliving
      · cases hbroken
  rw [hnobody] at hcount
  exact hcount

/-! ## Whole runs -/

section Run

variable {m₁ m₂ m₃ : Machine} {ws : List Worker} {turns : List Worker → List Nat} {mismatches : Nat}

/-- After the teardown of all processes every frame is free. -/
theorem exists_freed (h : m.Ready ⟨ps, [], [], []⟩) :
    ∃ m', (releaseAll ps).run { m with log := #[] } = .ok () m' ∧
      m'.kernel.frames.freeCount = m.kernel.frames.directory.size := by
  have halike : Alike m { m with log := #[] } :=
    ⟨rfl, ⟨rfl, fun _ => rfl⟩, rfl, rfl, fun _ => rfl, rfl, rfl⟩
  obtain ⟨m', hrun, hsound, hsize, hliving⟩ :=
    exists_releaseAll (h.sound.alike halike) fun p hp => hp
  refine ⟨m', hrun, (freeCount_of_dead hsound fun pid => ?_).trans hsize⟩
  -- whoever still lives would have lived before, and all of those were torn down
  by_contra hpid
  obtain ⟨hbefore, hnot⟩ := hliving pid hpid
  obtain ⟨p, hp⟩ := Option.ne_none_iff_exists'.mp hbefore
  obtain ⟨rfl, hmem⟩ := h.sound.census.registered pid p hp
  exact hnot (List.mem_map_of_mem hmem)

/-- The report on a run in which nothing fails. -/
theorem runInOrder_of_steps
    (hboot : Machine.boot (Config.default.withFrameCount o.frames) (.empty none) = .ok m)
    (hspawn : spawnAll o o.processes 0 m = (.ok ps, m₁))
    (hwork : takeTurns (turns (workers o ps)) (workers o ps) m₁ = (ws, m₂))
    (htotal : totalMismatches ws = .ok mismatches) (hcheck : m₂.check = .ok none)
    (hrelease : (releaseAll ps).run { m₂ with log := #[] } = .ok () m₃)
    (hfree : m₃.kernel.frames.freeCount = o.frames) :
    runInOrder o turns = conclude (logMessages o.level m₂.log ++ [summary o m₂.kernel] ++
      logMessages o.level m₃.log) (.ok mismatches) := by
  rw [runInOrder]
  simp only [hboot, hspawn, exercise, hwork, htotal, hcheck, finish, hrelease, hfree, if_true]

end Run

/-- **No simulation reports a mismatch.** Take any number of frames that an entry can name, and fewer than
2³² processes that are not too large for their addresses and left to demand paging. Then the memory
manager starts and all processes are created. In whatever order the workers have their turns, each access
being over before the next one begins, nobody ends early or counts a mismatch. Each worker does as many of
its accesses as it has turns, and if these are all of them, its pages hold the pattern of the last round.
Then the check of the machine passes, the processes are torn down, every frame is free, and the run ends
with status 0. -/
theorem every_simulation_succeeds (hmode : o.mode = .demand) (hframes : 1 ≤ o.frames)
    (hfew : o.frames ≤ 2 ^ 24)
    (hpages : o.pages + defaultStackPages + argumentPages ≤ maxProcessPages)
    (hprocesses : o.processes < 2 ^ 32) (hpatterned : Patterned o) (turns : List Worker → List Nat) :
    ∃ m₀ ps m₁ ws m₂ m₃,
      Machine.boot (Config.default.withFrameCount o.frames) (.empty none) = .ok m₀ ∧
      spawnAll o o.processes 0 m₀ = (.ok ps, m₁) ∧ ps.length = o.processes ∧
      takeTurns (turns (workers o ps)) (workers o ps) m₁ = (ws, m₂) ∧ ws.length = o.processes ∧
      (∀ i w, ws[i]? = some w → ps[i]? = some w.process ∧ w.ended = none ∧ w.mismatches = 0 ∧
        w.todo = (accesses o.pages o.rounds).drop ((turns (workers o ps)).count i) ∧
        (w.todo = [] → ∀ n round, n < o.pages → round + 1 = o.rounds →
          w.Holds m₂ (.ofNat n) round)) ∧
      m₂.check = .ok none ∧
      (releaseAll ps).run { m₂ with log := #[] } = .ok () m₃ ∧
      m₃.kernel.frames.freeCount = o.frames ∧
      runInOrder o turns = ⟨0, logMessages o.level m₂.log ++ [summary o m₂.kernel] ++
        logMessages o.level m₃.log⟩ := by
  obtain ⟨m₀, hboot, hready₀, hconfig, hsize₀⟩ := exists_boot hframes hfew
  obtain ⟨ps, m₁, hspawn, hlength, hready₁, hps, hsize₁⟩ := exists_spawnAll hmode hpages hready₀ hconfig
    (fun q hq => absurd hq List.not_mem_nil) (by rw [List.length_nil, Nat.zero_add]; exact hprocesses)
    (by rw [Nat.zero_add]; exact Nat.le_of_lt hprocesses)
  rw [List.nil_append] at hready₁ hps
  have hteam₁ := team_workers hpages hpatterned hlength hready₁ hps
  obtain ⟨ws, m₂, hwork, hteam₂, hstays, hcount, htodo⟩ := hteam₁.takeTurns (turns (workers o ps))
  obtain ⟨m₃, hrelease, hfree⟩ := exists_freed hteam₂.ready
  have hfree' : m₃.kernel.frames.freeCount = o.frames := by rw [hfree, hstays.size, hsize₁, hsize₀]
  have hcheck := hteam₂.ready.sound.check rfl rfl
  have hrun := runInOrder_of_steps hboot hspawn hwork hteam₂.totalMismatches hcheck hrelease hfree'
  refine ⟨m₀, ps, m₁, ws, m₂, m₃, hboot, hspawn, hlength, hwork,
    hcount.trans ((List.length_map _).trans hlength), fun i w hw => ?_, hcheck, hrelease, hfree', hrun⟩
  obtain ⟨filled, honTrack, -⟩ := hteam₂.onTrack i w hw
  have hleft := htodo i
  rw [hw, Option.map_some, eq_comm, Option.map_eq_some_iff] at hleft
  obtain ⟨v, hv, hpair⟩ := hleft
  obtain ⟨p, hp, rfl⟩ := exists_of_workers hpages hv
  obtain ⟨hprocess, hleft⟩ := Prod.mk.inj hpair
  refine ⟨hprocess ▸ hp, honTrack.ended, honTrack.mismatches, hleft.symm, fun hdone n round hn hround => ?_⟩
  rw [← hround] at hteam₂
  exact hteam₂.holds hw hdone hn

/-- Two processes with two pages each share one frame, and take turns with each other. -/
theorem every_simulation_succeeds_shared :
    (runInOrder ⟨1, 2, 2, 1, .demand, .warn⟩ fun _ => [0, 1, 0, 1, 0, 1, 0, 1]).status = 0 := by
  obtain ⟨-, -, -, -, m₂, m₃, -, -, -, -, -, -, -, -, -, hrun⟩ :=
    @every_simulation_succeeds ⟨1, 2, 2, 1, .demand, .warn⟩ rfl (by decide) (by decide) (by decide)
      (by decide) (patterned_of_rounds (by decide)) fun _ => [0, 1, 0, 1, 0, 1, 0, 1]
  rw [hrun]

end Simulator

end DemandPaging
