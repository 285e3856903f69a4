import DemandPaging.Proofs.Arguments
import DemandPaging.Proofs.Configuration
import DemandPaging.Proofs.Creation
import DemandPaging.Proofs.Draws

/-!
# Eager loading

A process whose pages are loaded eagerly asks for all of them in turn before its arguments are written.
That does not always leave every page resident: a page may be brought into a frame that an earlier page
of the same process has got. The frames that the pages get are known beforehand (`FrameTable.draws`), and
a page stays if no later page gets its frame (`lodging?`).
-/

namespace DemandPaging

open Machine

/-! ## Pages and their frames -/

/-- The frame in which page number `k` lies, after the pages from number zero on were brought into the
frames `fs`. -/
def lodging? (fs : List FrameNumber) (k : Nat) : Option FrameNumber :=
  match fs.drop k with
  | [] => none
  | f :: later => if f ∈ later then none else some f

theorem lodging?_nil (k : Nat) : lodging? [] k = none := by
  rw [lodging?, List.drop_nil]

/-- The next page takes the place of the page that has its frame. -/
theorem lodging?_append (fs : List FrameNumber) (f : FrameNumber) (k : Nat) :
    lodging? (fs ++ [f]) k = if k = fs.length then some f
      else if lodging? fs k = some f then none else lodging? fs k := by
  obtain hlt | rfl | hlt := Nat.lt_trichotomy k fs.length
  · rw [lodging?, lodging?, List.drop_append_of_le_length hlt.le, if_neg hlt.ne]
    obtain ⟨g, later, hdrop⟩ := List.exists_cons_of_length_pos
      (show 0 < (fs.drop k).length by rw [List.length_drop]; omega)
    rw [hdrop]
    by_cases hlater : g ∈ later <;> by_cases hg : g = f <;> simp [hlater, hg]
  · simp [lodging?]
  · rw [lodging?, lodging?, List.drop_eq_nil_of_le (by simp; omega), if_neg hlt.ne',
      List.drop_eq_nil_of_le hlt.le]
    simp

/-- All pages stay if each has a frame of its own. -/
theorem nodup_iff_lodging? (fs : List FrameNumber) :
    fs.Nodup ↔ ∀ k < fs.length, lodging? fs k ≠ none := by
  induction fs with
  | nil => simp
  | cons f fs ih =>
    have hzero : lodging? (f :: fs) 0 ≠ none ↔ f ∉ fs := by
      simp [lodging?]
    have hsucc : ∀ k, lodging? (f :: fs) (k + 1) = lodging? fs k := fun k => rfl
    rw [List.nodup_cons, ih, List.length_cons, Nat.forall_lt_succ_left]
    simp only [hzero, hsucc]

/-- The last page stays. -/
theorem lodging?_last {fs : List FrameNumber} {k : Nat} (h : k + 1 = fs.length) :
    lodging? fs k ≠ none := by
  have hlength : (fs.drop k).length = 1 := by rw [List.length_drop]; omega
  obtain ⟨f, hdrop⟩ := List.length_eq_one_iff.mp hlength
  rw [lodging?, hdrop]
  simp

/-- A table whose pages can be numbered has as many resident pages as pages if all are resident. -/
theorem PageTable.residentCount_eq_size {t : PageTable} (hsize : t.size ≤ wordBound) :
    t.residentCount = t.size ↔ ∀ page : PageNumber, page.toNat < t.size → t.translate? page ≠ none := by
  have hentry : ∀ (page : PageNumber) (h : page.toNat < t.size),
      t.translate? page ≠ none ↔ t.entries[page.toNat].valid = true := fun page h => by
    rw [translate?, get?, Array.getElem?_eq_getElem h, Option.bind_some, PageEntry.frame?]
    cases t.entries[page.toNat].valid <;> simp
  rw [residentCount, size, Array.countP_eq_size]
  constructor
  · exact fun hall page h => (hentry page h).mpr (hall _ (Array.getElem_mem h))
  · intro hall e he
    obtain ⟨k, hk, rfl⟩ := Array.getElem_of_mem he
    have htoNat : (PageNumber.ofNat k).toNat = k := PageNumber.toNat_ofNat (lt_of_lt_of_le hk hsize)
    have hlt : (PageNumber.ofNat k).toNat < t.size := by rwa [htoNat]
    have hvalid := (hentry _ hlt).mp (hall _ hlt)
    simpa only [htoNat] using hvalid

namespace Machine

variable {m m' : Machine} {l : Ledger} {p : UserProcess} {page : PageNumber} {f : FrameNumber}
  {fs : List FrameNumber}

/-- The pages of `p` lie where they do after they were brought into the frames `fs`. -/
def Lodges (m : Machine) (p : UserProcess) (fs : List FrameNumber) : Prop :=
  ∀ page : PageNumber, (m.table p).translate? page = lodging? fs page.toNat

/-- The next page is brought in. -/
theorem Lodges.accessed (h : m.Lodges p fs) (hsound : m.Sound l) (hreg : m.Registered p)
    (ha : m.Accessed m' p page f) (hpage : page.toNat = fs.length) : m'.Lodges p (fs ++ [f]) := by
  intro page'
  have heq : page' = page ↔ page'.toNat = fs.length := by rw [← hpage, PageNumber.toNat_inj]
  rw [lodging?_append, ← h page']
  cases ha.tables with
  | free stack table =>
    have hfree : (m.table p).translate? page' ≠ some f := fun hmapped => by
      obtain ⟨i, hi, howner, -⟩ := hsound.agreement.mapped p page' f hreg hmapped
      have hmem : f ∈ m.kernel.frames.free.stack := by
        cases ha.pool with
        | free stack stack' directory clock => exact stack ▸ List.mem_cons_self
        | evicted stack' _ _ _ _ => exact absurd stack' stack
      obtain ⟨j, hj, hnone⟩ := (hsound.pool.mem_stack f).mp hmem
      cases hi.symm.trans hj
      rw [hnone] at howner
      contradiction
    rw [table, if_neg hfree]
    simp only [true_and, heq]
  | @evicted q page₁ i pid stack info owner held process mapped table =>
    have hvictim : p.table.index = q.table.index ∧ page' = page₁ ↔
        (m.table p).translate? page' = some f := by
      constructor
      · rintro ⟨hindex, rfl⟩
        rwa [Machine.table, hindex]
      · intro hmapped
        obtain ⟨j, hj, howner, hheld⟩ := hsound.agreement.mapped p page' f hreg hmapped
        cases info.symm.trans hj
        rw [owner, Option.some.injEq] at howner
        rw [howner, hreg, Option.some.injEq] at process
        exact ⟨process ▸ rfl, hheld.symm.trans held⟩
    rw [table]
    simp only [true_and, heq, hvictim]

end Machine

/-! ## Creations that succeed -/

namespace Call

variable {m₀ m m' : Machine} {l : Ledger} {c : Call} {p : UserProcess} {n : Nat} {a : Answer}

/-- Neither a failure nor an attempt to get at a page ends a call with a value. -/
theorem afterFailure_ne (c : Call) (stop : Stop VmError) :
    c.afterFailure stop ≠ .finished (.returned a) := by
  unfold afterFailure
  split
  · nofun
  · split <;> nofun

theorem afterSeek_ne (c : Call) (r : EStateM.Result (Stop VmError) Machine Grant) :
    c.afterSeek r ≠ (.finished (.returned a), m') := by
  intro h
  rcases r with ⟨grant, m₂⟩ | ⟨stop, m₂⟩
  · cases grant <;> cases h
  · exact c.afterFailure_ne stop (congrArg Prod.fst h)

/-- The last step of a creation that succeeds. -/
theorem Stepped.alike_of_spawned {q : UserProcess}
    (hs : Stepped m l c (.finished (.returned (.spawned q)), m')) : c.process = q ∧ Alike m m' := by
  generalize hx : (Progress.finished (.returned (.spawned q)), m') = x at hs
  cases hs with
  | asleep stage parked => cases hx
  | quiet stage quiet alike waiters =>
    cases hx
    exact ⟨(quiet.spawned q rfl).1, alike⟩
  | attempt ready wanted resolution run => exact absurd hx.symm (c.afterSeek_ne _)
  | unpinned frame info pins writing valid continues => cases hx
  | kept stage wanted writing => cases hx
  | copied stage tasks turn copied valid run => cases hx
  | @undone e r stage departure =>
    rcases r with ⟨u, m₂⟩ | ⟨stop, m₂⟩
    · cases hx
    · cases stop <;> cases hx

/-- An attempt that does not fail and leaves the call awake pins the frame of the page. -/
theorem of_afterSeek {page : PageNumber} {kind : AccessKind} {c₁ : Call} {m₁ : Machine}
    (h : c.afterSeek ((Action.resolve c.process page kind).run m) = (.ongoing c₁, m₁))
    (hawake : c₁.isAsleep m₁ = false) (htorn : c₁.torn? = none) : ∃ f,
      (Action.resolve c.process page kind).run m = .ok (.pinned f) m₁ ∧
        c₁ = { c with stage := .holding f } := by
  cases hresolve : (Action.resolve c.process page kind).run m with
  | error stop m₂ =>
    simp only [hresolve, afterSeek, afterFailure] at h
    split at h
    · cases h
    · split at h
      · cases h
        cases htorn
      · cases h
  | ok grant m₂ =>
    rw [hresolve] at h
    cases grant with
    | pinned f =>
      cases h
      exact ⟨f, rfl, rfl⟩
    | queued t =>
      cases h
      have hasleep : isAsleep { c with stage := .waiting t } m₁ = true :=
        Option.isNone_iff_eq_none.mpr (Action.park?_of_queued hresolve)
      rw [hasleep] at hawake
      contradiction

namespace Creates

variable (h : c.Creates p m₀ l m) (hnew : m₀.process? p.pid = none)
include h

omit h in
theorem mem_processes : p ∈ (l.creating p c).processes :=
  List.mem_append_right _ (List.mem_singleton_self p)

theorem registered_self : m.Registered p := by
  rw [Registered, h.registry, if_pos rfl]

/-- While no page is held for the creation, the pins are those that there were before. -/
theorem pins_eq (h₀ : m₀.Sound l) (hframe : c.frame? = none) (f : FrameNumber) :
    (m.frameInfo? f).map (·.pins) = (m₀.frameInfo? f).map (·.pins) := by
  have hsound := h.sound
  rw [Ledger.creating, hframe] at hsound
  exact h₀.pins_eq hsound h.size rfl rfl f

include hnew

/-- A creation that succeeds does so in this step, or goes on to succeed. -/
theorem next (hrun : c.runFor n m = (.finished (.returned a), m')) :
    c.torn? = none ∧ (c.step m = (.finished (.returned a), m') ∨
      ∃ k c₁ m₁, k < n ∧ c.step m = (.ongoing c₁, m₁) ∧ c₁.Creates p m₀ l m₁ ∧
        c₁.isAsleep m₁ = false ∧ c₁.runFor k m₁ = (.finished (.returned a), m')) := by
  have hs := h.stepped
  cases n with
  | zero => cases hrun
  | succ k =>
    rw [runFor] at hrun
    split at hrun
    · next hstep =>
      cases hrun
      rw [hstep] at hs
      exact ⟨hs.torn?_of_returned, .inl hstep⟩
    · next c₁ m₁ hstep =>
      rw [hstep] at hs
      split at hrun
      · cases hrun
      · next hawake =>
        exact ⟨hs.torn?_of_ongoing, .inr ⟨k, c₁, m₁, Nat.lt_succ_self k, hstep, h.step hnew hstep,
          Bool.eq_false_iff.mpr hawake, hrun⟩⟩

/-- **A creation that succeeds** leaves the machine sound, with the pins that there were before. -/
theorem created {q : UserProcess}
    (hrun : c.runFor n m = (.finished (.returned (.spawned q)), m')) :
    q = p ∧ m'.Sound { l with processes := l.processes ++ [p] } ∧
      m'.kernel.frames.directory.size = m₀.kernel.frames.directory.size ∧
      ∀ page, m'.readOnly? p page = m.readOnly? p page := by
  induction n using Nat.strongRecOn generalizing c m with
  | ind n ih =>
    have hs := h.stepped
    have hmem := @mem_processes l c p
    obtain ⟨htorn, hlast | ⟨k, c₁, m₁, hk, hgoes, hcreates, -, hrun₁⟩⟩ := h.next hnew hrun
    · rw [hlast] at hs
      have horderly := hs.orderly h.sound htorn
      obtain ⟨loose, hloose, hsound⟩ := hs.sound h.sound (.refl _) h.valid
      rw [hloose nofun, broken_eq_nil htorn] at hsound
      obtain ⟨rfl, -⟩ := hs.alike_of_spawned
      exact ⟨h.process, hsound, horderly.size.trans h.size, horderly.readOnly p hmem⟩
    · rw [hgoes] at hs
      have horderly := hs.orderly h.sound htorn
      obtain ⟨hq, hsound, hsize, hreadOnly⟩ := ih k hk hcreates hrun₁
      exact ⟨hq, hsound, hsize, fun page => (hreadOnly page).trans (horderly.readOnly p hmem page)⟩

/-! ## Pages are touched -/

/-- **A page is touched**, and the next page is the turn. -/
theorem touched {k stop : Nat} {args : List Task}
    (hc : c = ⟨p, .spawn, .touch k stop :: args, .seeking⟩) (hlt : k < stop)
    (habsent : (m.table p).translate? (.ofNat k) = none)
    (hrun : c.runFor n m = (.finished (.returned a), m')) : ∃ n' m₁ f,
      Creates ⟨p, .spawn, .touch (k + 1) stop :: args, .seeking⟩ p m₀ l m₁ ∧
      m.Accessed m₁ p (.ofNat k) f ∧
      runFor n' ⟨p, .spawn, .touch (k + 1) stop :: args, .seeking⟩ m₁ =
        (.finished (.returned a), m') := by
  have hwanted : c.wanted? = some (.ofNat k, .read) := by
    rw [hc]
    exact if_pos hlt
  have hstep := step_of_seeking (m := m) hwanted (hc ▸ rfl)
  obtain ⟨-, hlast | ⟨n₁, c₁, m₁, -, hgoes, hcreates, hawake, hrun₁⟩⟩ := h.next hnew hrun
  · exact absurd (hstep.symm.trans hlast) (c.afterSeek_ne _)
  · rw [hstep] at hgoes
    obtain ⟨htorn, hnext⟩ := hcreates.next hnew hrun₁
    obtain ⟨f, hresolve, rfl⟩ := of_afterSeek hgoes hawake htorn
    subst hc
    have hplaced := ((Action.of_run_resolve hresolve).2.resolve_left fun hhit => by
      cases habsent.symm.trans hhit.1).2
    cases hunpin : (Action.unpin f).run m₁ with
    | error stop m₂ =>
      obtain ⟨v, rfl⟩ := Action.violation_of_unpin hunpin
      have hviolated : Call.step ⟨p, .spawn, .touch k stop :: args, .holding f⟩ m₁ =
          (.finished (.violated v), m₂) :=
        step_of_violation (by simp only [proceed, use, EStateM.run_bind, hunpin])
      obtain hlast | ⟨n₂, c₂, m₂, -, hgoes, -⟩ := hnext
      · cases hviolated.symm.trans hlast
      · cases hviolated.symm.trans hgoes
    | ok u m₂ =>
      have hunpinned : Call.step ⟨p, .spawn, .touch k stop :: args, .holding f⟩ m₁ =
          (.ongoing ⟨p, .spawn, .touch (k + 1) stop :: args, .seeking⟩, m₂) :=
        step_of_run (by simp only [proceed, use, EStateM.run_bind, hunpin]; rfl)
      obtain hlast | ⟨n₂, c₂, m₃, -, hgoes, hcreates₂, -, hrun₂⟩ := hnext
      · cases hunpinned.symm.trans hlast
      · cases hunpinned.symm.trans hgoes
        obtain ⟨i, hi, -, rfl⟩ := Action.of_run_unpin hunpin
        exact ⟨n₂, _, f, hcreates₂, hplaced.accessed hi rfl rfl fun _ _ => rfl, hrun₂⟩

/-- **All pages are touched**, and they get the frames that are drawn. -/
theorem loaded (h₀ : m₀.Sound l) (hidle : ∀ f i, m₀.frameInfo? f = some i → i.pins = 0)
    {fs : List FrameNumber} {j : Nat} {args : List Task}
    (hc : c = ⟨p, .spawn, .touch fs.length p.numPages :: args, .seeking⟩)
    (hj : fs.length + j = p.numPages) (hbound : p.numPages ≤ wordBound) (hlodges : m.Lodges p fs)
    (hrun : c.runFor n m = (.finished (.returned a), m')) : ∃ n' m₁,
      Creates ⟨p, .spawn, .touch p.numPages p.numPages :: args, .seeking⟩ p m₀ l m₁ ∧
      (m.kernel.frames.draws m.kernel.config.referenceOnInstall j).length = j ∧
      m₁.Lodges p (fs ++ m.kernel.frames.draws m.kernel.config.referenceOnInstall j) ∧
      runFor n' ⟨p, .spawn, .touch p.numPages p.numPages :: args, .seeking⟩ m₁ =
        (.finished (.returned a), m') := by
  induction j generalizing c m n fs with
  | zero =>
    rw [Nat.add_zero] at hj
    rw [hj] at hc
    rw [FrameTable.draws_of_le (Nat.zero_le _), List.take_zero, List.append_nil]
    exact ⟨n, m, hc ▸ h, rfl, hlodges, hc ▸ hrun⟩
  | succ j ih =>
    have htoNat : (PageNumber.ofNat fs.length).toNat = fs.length :=
      PageNumber.toNat_ofNat (by omega)
    have habsent : (m.table p).translate? (.ofNat fs.length) = none := by
      rw [hlodges, htoNat, lodging?, List.drop_length]
    obtain ⟨n₁, m₁, f, hcreates, ha, hrun₁⟩ := h.touched hnew hc (by omega) habsent hrun
    have hlodges₁ := hlodges.accessed h.sound h.registered_self ha htoNat
    have hlength : (fs ++ [f]).length = fs.length + 1 := by simp
    obtain ⟨n₂, m₂, hcreates₂, hdraws, hlodges₂, hrun₂⟩ := ih hcreates (by rw [hlength]) (by omega)
      hlodges₁ hrun₁
    have hidle₁ : ∀ f i, m.kernel.frames.info? f = some i → i.pins = 0 := fun f i hi => by
      have hpins := h.pins_eq h₀ (hc ▸ rfl) f
      rw [frameInfo?, hi, Option.map_some] at hpins
      obtain ⟨i₀, hi₀, hzero⟩ := Option.map_eq_some_iff.mp hpins.symm
      exact hzero ▸ hidle f i₀ hi₀
    have hsucc := FrameTable.draws_succ h.sound.pool hidle₁ ha.pool j
    rw [ha.config] at hdraws hlodges₂
    refine ⟨n₂, m₂, hcreates₂, ?_, ?_, hrun₂⟩
    · rw [hsucc, List.length_cons, hdraws]
    · rwa [hsucc, List.append_cons]

end Creates

end Call

/-! ## Arguments are written -/

/-- Apart from failing, all that the task may need is the argument page of `p`. -/
def Task.Settled (p : UserProcess) : Task → Prop
  | .touch next stop => ¬ next < stop
  | .copy c => c.Lays p.layout.argumentPage
  | .refuse _ => True
  | _ => False

namespace Call

variable {m m' : Machine} {l : Ledger} {c c' : Call} {p : UserProcess} {n : Nat}

/-- What is left of the creation needs the argument page only. -/
def Settled (c : Call) : Prop := ∀ t ∈ c.tasks, t.Settled c.process

theorem Settled.wanted? (h : c.Settled) {page : PageNumber} {kind : AccessKind}
    (hwanted : c.wanted? = some (page, kind)) : page = c.process.layout.argumentPage := by
  unfold Call.wanted? at hwanted
  split at hwanted
  · next next stop rest ht =>
    have hnot : (Task.touch next stop).Settled c.process := h _ (ht ▸ List.mem_cons_self)
    rw [if_neg hnot] at hwanted
    contradiction
  · next page' kind' rest ht => exact (h (.hold page' kind') (ht ▸ List.mem_cons_self)).elim
  · next copy rest ht =>
    split at hwanted
    · next piece hturn =>
      cases hwanted
      have hlays : (Task.copy copy).Settled c.process := h _ (ht ▸ List.mem_cons_self)
      exact (Copy.Lays.piece hlays hturn).1
    · contradiction
  · contradiction

theorem Settled.reduces (h : c.Settled) {ts : List Task} (hts : c.Reduces ts) :
    ∀ t ∈ ts, t.Settled c.process := by
  cases hts with
  | same => exact h
  | ended tasks ended => exact fun t ht => h t (tasks ▸ List.mem_cons_of_mem _ ht)
  | @load rest tasks => exact (h (.load .eager) (tasks ▸ List.mem_cons_self)).elim
  | @touch next stop rest tasks =>
    have hnot : (Task.touch next stop).Settled c.process := h _ (tasks ▸ List.mem_cons_self)
    refine List.forall_mem_cons.mpr ⟨?_, fun t ht => h t (tasks ▸ List.mem_cons_of_mem _ ht)⟩
    exact fun hlt : next + 1 < stop => hnot (Nat.lt_of_succ_lt hlt)

/-- **Writing arguments leaves every page where it is.** -/
theorem Stepped.settled (hs : Stepped m l c (.ongoing c', m')) (hsettled : c.Settled)
    (hresident : (m.table c.process).translate? c.process.layout.argumentPage ≠ none)
    (hawake : c'.isAsleep m' = false) (htorn : c'.torn? = none) :
    c'.process = c.process ∧ c'.Settled ∧ ∀ (q : UserProcess) (page : PageNumber),
      (m'.table q).translate? page = (m.table q).translate? page := by
  have hcontinues : ∀ {c₁ : Call}, c.Continues c₁ → c₁.process = c.process ∧ c₁.Settled :=
    fun h => ⟨h.process, fun t ht => h.process ▸ hsettled.reduces h.reduces t ht⟩
  generalize hx : (Progress.ongoing c', m') = x at hs
  cases hs with
  | asleep stage parked =>
    cases hx
    exact ⟨rfl, hsettled, fun _ _ => rfl⟩
  | quiet stage quiet alike waiters =>
    cases hx
    obtain ⟨hprocess, hsettled'⟩ := hcontinues quiet.1
    exact ⟨hprocess, hsettled', fun q page => by rw [alike.table]⟩
  | @attempt m₁ page kind r ready wanted resolution run =>
    subst run
    obtain ⟨f, hresolve, rfl⟩ := of_afterSeek hx.symm hawake htorn
    have htable := ready.alike.table
    obtain hhit | ⟨habsent, -⟩ := (Action.of_run_resolve hresolve).2
    · obtain ⟨-, i, -, rfl⟩ := hhit
      exact ⟨rfl, hsettled, fun q page => by rw [← htable]; rfl⟩
    · rw [hsettled.wanted? wanted, htable] at habsent
      exact absurd habsent hresident
  | unpinned frame info pins writing valid continues =>
    cases hx
    obtain ⟨hprocess, hsettled'⟩ := hcontinues continues
    exact ⟨hprocess, hsettled', fun _ _ => rfl⟩
  | kept stage wanted writing => cases hx
  | @copied f copy copy' piece rest m₁ stage tasks turn copied valid run =>
    cases hx
    have hlays : (Task.copy copy).Settled c.process :=
      hsettled _ (tasks ▸ List.mem_cons_self)
    obtain rfl := Action.eq_afterWrite (Copy.Lays.kind hlays) run
    obtain ⟨-, -, m₂, rfl, hbytes⟩ := Action.of_run_transfer run
    have htables : m₂.tables = m.tables := by
      obtain ⟨-, rfl⟩ | ⟨-, b, -, rfl⟩ := hbytes <;> rfl
    have htable : ∀ q, m₂.table q = m.table q := fun q => by rw [table, table, htables]
    have hlays' : (Task.copy (copy.afterWrite piece)).Settled c.process :=
      (Copy.Lays.piece hlays turn).2.2.2.2
    refine ⟨rfl, List.forall_mem_cons.mpr ⟨hlays', fun t ht =>
      hsettled t (tasks ▸ List.mem_cons_of_mem _ ht)⟩, fun q page => ?_⟩
    rw [← htable c.process, translate?_marked, htable]
  | @undone e r stage departure =>
    rcases r with ⟨u, m₂⟩ | ⟨stop, m₂⟩
    · cases hx
    · cases stop <;> cases hx

/-- **The pages lie where they were loaded** when the creation has succeeded. -/
theorem Creates.lodges {m₀ : Machine} {q : UserProcess} {fs : List FrameNumber}
    (h : c.Creates p m₀ l m) (hnew : m₀.process? p.pid = none) (hsettled : c.Settled)
    (hlodges : m.Lodges p fs) (hlast : lodging? fs p.layout.argumentPage.toNat ≠ none)
    (hrun : c.runFor n m = (.finished (.returned (.spawned q)), m')) : m'.Lodges p fs := by
  induction n using Nat.strongRecOn generalizing c m with
  | ind n ih =>
    have hs := h.stepped
    obtain ⟨-, hlast | ⟨k, c₁, m₁, hk, hgoes, hcreates, hawake, hrun₁⟩⟩ := h.next hnew hrun
    · rw [hlast] at hs
      intro page
      rw [hs.alike_of_spawned.2.table, hlodges]
    · rw [hgoes] at hs
      have hresident : (m.table c.process).translate? c.process.layout.argumentPage ≠ none := by
        rwa [h.process, hlodges]
      obtain ⟨-, hsettled₁, htable⟩ := hs.settled hsettled hresident hawake
        (hcreates.next hnew hrun₁).1
      exact ih k hk hcreates hsettled₁ (fun page => (htable p page).trans (hlodges page)) hrun₁

/-- The first step of an eager creation: there must be as many frames as pages. -/
theorem step_load (p : UserProcess) (args : List Task) (m : Machine) :
    step ⟨p, .spawn, .load .eager :: args, .seeking⟩ m =
      if m.kernel.config.frameCount < p.numPages then
        (.ongoing ⟨p, .spawn, .load .eager :: args,
          .undoing (.insufficientMemory p.numPages m.kernel.config.frameCount)⟩,
          m.noted (.doesNotFit p.pid p.numPages m.kernel.config.frameCount))
      else (.ongoing ⟨p, .spawn, .touch 0 p.numPages :: args, .seeking⟩, m) := by
  by_cases hlt : m.kernel.config.frameCount < p.numPages
  · simp only [step, proceed, begin, beginLoad, EStateM.run_bind, EStateM.run_get, hlt, if_true,
      Action.run_note, Action.run_fail, afterFailure]
  · simp only [step, proceed, begin, beginLoad, EStateM.run_bind, EStateM.run_get, hlt, if_false,
      EStateM.run_pure, withTasks]

/-- What is left when all pages are touched. -/
theorem settled_touched {table : VirtualAddress} {args : List Bytes}
    (hpage : table.page = p.layout.argumentPage) (hoffset : table.offset.toNat = 0)
    (hsize : ArgumentBlock.size args ≤ pageSize) : Settled ⟨p, .spawn,
      .touch p.numPages p.numPages :: (ArgumentBlock.steps table args).map ArgumentStep.toTask,
      .seeking⟩ := by
  refine List.forall_mem_cons.mpr ⟨Nat.lt_irrefl _, fun t ht => ?_⟩
  obtain ⟨step, -, rfl⟩ := List.mem_map.mp ht
  cases step with
  | write a bytes =>
    have hlays : (Copy.ofWrite a bytes).Lays table.page := ArgumentBlock.lays_steps hoffset hsize ht
    rw [hpage] at hlays
    exact hlays
  | tooLong n => trivial

end Call

/-! ## Eager creations -/

namespace Machine

/-- The frames that the pages of `p` get, from the first page on. -/
def drawn (m : Machine) (p : UserProcess) : List FrameNumber :=
  m.kernel.frames.draws m.kernel.config.referenceOnInstall p.numPages

/-- Where the pages of a process are that was created eagerly. -/
structure Preloaded (m m' : Machine) (p : UserProcess) : Prop where
  drawn : (m.drawn p).length = p.numPages
  /-- A page is resident unless a later page has its frame. -/
  lodges : m'.Lodges p (m.drawn p)
  unpinned : ∀ f i, m'.frameInfo? f = some i → i.pins = 0
  /-- All pages are resident if they have got frames of their own. -/
  whole : (m'.table p).residentCount = p.numPages ↔ (m.drawn p).Nodup

variable {m m' : Machine} {l : Ledger} {image : Executable} {args : List Bytes} {p : UserProcess}

/-- A process has an entry for every page, as it had at first. -/
theorem size_table_of_initial {t : PageTable} {stackPages : Nat}
    (hlayout : Layout.ofSections p.image.sections stackPages = .ok p.layout)
    (ht : UserProcess.initialTable p.image p.layout = .ok t) (hsize : (m.table p).size ≤ wordBound)
    (hreadOnly : ∀ page, m.readOnly? p page = (t.get? page).map PageEntry.readOnly) :
    (m.table p).size = p.numPages := by
  have hmax : p.numPages < wordBound := by
    obtain ⟨-, hmax, -⟩ := Layout.ofSections_spec hlayout
    exact lt_of_le_of_lt hmax (by decide)
  have hcontains : ∀ page : PageNumber, page.toNat < (m.table p).size ↔ page.toNat < p.numPages := by
    intro page
    have hsome := congrArg Option.isSome (hreadOnly page)
    rw [readOnly?, UserProcess.get?_initialTable hlayout ht, Option.isSome_map, Option.isSome_map,
      Option.isSome_map, entryOf?, PageTable.isSome_get?, Layout.source?, PageTable.contains] at hsome
    by_cases hlt : page.toNat < p.numPages
    · rw [if_pos (show p.layout.contains page = true from decide_eq_true hlt)] at hsome
      exact iff_of_true (of_decide_eq_true hsome) hlt
    · rw [if_neg (show ¬ p.layout.contains page = true from fun h => hlt (of_decide_eq_true h))] at hsome
      exact iff_of_false (of_decide_eq_false hsome) hlt
  apply Nat.le_antisymm
  · by_contra hlt
    have hpage := PageNumber.toNat_ofNat hmax
    exact absurd ((hcontains (.ofNat p.numPages)).mp (by omega)) (by omega)
  · by_contra hlt
    have hpage := PageNumber.toNat_ofNat (show (m.table p).size < wordBound by omega)
    exact absurd ((hcontains (.ofNat (m.table p).size)).mpr (by omega)) (by omega)

theorem preloaded_of_spawn (h : m.Sound l) (hroom : l.processes.length + 1 < wordBound)
    (hidle : ∀ f i, m.frameInfo? f = some i → i.pins = 0)
    (hspawn : m.spawn image args .eager = (.finished (.returned (.spawned p)), m')) :
    m.Preloaded m' p ∧ p.numPages ≤ m.kernel.config.frameCount := by
  unfold spawn at hspawn
  cases hrun : (Action.spawn image args .eager).run m with
  | error stop m₁ =>
    rw [hrun] at hspawn
    exact absurd (Progress.finished.inj (congrArg Prod.fst hspawn)) (System.ofStop_ne_spawned stop)
  | ok c m₁ =>
    rw [hrun] at hspawn
    replace hspawn : c.runFor c.stepsLeft m₁ = _ := hspawn
    have hbirth := Action.spawn_spec m image args .eager
    obtain ⟨hpid, hcreates⟩ := Call.creates_joined h hroom hrun
    rw [hrun] at hbirth
    have hnew : m.process? c.process.pid = none := by
      rw [hpid]
      exact h.census.process?_nextPid hroom
    cases hbirth with
    | @begun p₁ t pid index himage fits absent layout table argv argc size =>
      obtain ⟨rfl, hsound, hsize, hreadOnly⟩ := hcreates.created hnew hspawn
      obtain ⟨-, hlast | ⟨k, c₁, m₂, -, hgoes, hcreates₁, -, hrun₁⟩⟩ := hcreates.next hnew hspawn
      · rw [Call.step_load] at hlast
        split at hlast <;> cases hlast
      · have htorn := (hcreates₁.next hnew hrun₁).1
        rw [Call.step_load] at hgoes
        split at hgoes
        · cases hgoes
          cases htorn
        · next hfit =>
          cases hgoes
          have hmax : p.numPages < wordBound := by
            obtain ⟨-, hmax, -⟩ := Layout.ofSections_spec layout
            exact lt_of_le_of_lt hmax (by decide)
          have hempty : (m.joined p t).Lodges p [] := fun page => by
            rw [table_joined_self index, lodging?_nil, PageTable.translate?]
            cases he : t.get? page with
            | none => rfl
            | some e => exact absent page e he
          obtain ⟨n₂, m₃, hcreates₂, hdrawn, hlodges, hrun₂⟩ := hcreates₁.loaded hnew h hidle rfl
            (Nat.zero_add _) hmax.le hempty hrun₁
          obtain ⟨hpage, hoffset, -, -⟩ := PageNumber.base?_spec argv
          have hlast := Layout.toNat_argumentPage layout
          have hlodges' := hcreates₂.lodges hnew (Call.settled_touched hpage hoffset size) hlodges
            (lodging?_last (hlast.trans hdrawn.symm)) hrun₂
          have htable := size_table_of_initial (himage ▸ layout) (himage ▸ table)
            (hsound.census.size_table_le p) fun page => by
              rw [hreadOnly, readOnly?, entryOf?, table_joined_self index]
          refine ⟨⟨hdrawn, hlodges', fun f i hi => ?_, ?_⟩, Nat.not_lt.mp hfit⟩
          · have hpins := h.pins_eq hsound hsize rfl rfl f
            rw [hi, Option.map_some] at hpins
            obtain ⟨i₀, hi₀, hzero⟩ := Option.map_eq_some_iff.mp hpins.symm
            exact hzero ▸ hidle f i₀ hi₀
          · have hlength : (m.drawn p).length = p.numPages := hdrawn
            rw [← htable, PageTable.residentCount_eq_size (hsound.census.size_table_le p), htable,
              nodup_iff_lodging?, hlength]
            constructor
            · intro hall k hk
              have htoNat := PageNumber.toNat_ofNat (hk.trans hmax)
              have hne := hall (.ofNat k) (htoNat.symm ▸ hk)
              rwa [hlodges', htoNat] at hne
            · intro hall page hlt
              rw [hlodges']
              exact hall _ hlt

end Machine

namespace System

variable {s : System} {image : Executable} {args : List Bytes} {p : UserProcess} {m' : Machine}

/-- **What an eager creation loads.** In every system that moves lead to from a machine that has just
started, and in which no frame is pinned, let the eager creation of a process succeed while nothing else
happens. Afterwards no frame is pinned. The pages were brought into frames that are known beforehand, and
a page is resident unless a later one was brought into the same frame, so all of them are resident if and
only if these frames are distinct. They are if there are as many free frames as pages, or if there is
no free frame and a page counts as referenced when it is brought in. -/
theorem eager_creation {config : Config} {swap : Swap} {m : Machine}
    (hboot : Machine.boot config swap = .ok m) (hs : Reachable HasRoom (ofMachine m) s)
    (hroom : s.HasRoom (.spawn image args .eager))
    (hidle : ∀ f i, s.machine.frameInfo? f = some i → i.pins = 0)
    (hspawn : s.machine.spawn image args .eager = (.finished (.returned (.spawned p)), m')) :
    s.machine.Preloaded m' p ∧
      (p.numPages ≤ s.machine.kernel.frames.free.stack.length →
        (m'.table p).residentCount = p.numPages) ∧
      (s.machine.kernel.frames.free.stack = [] → config.referenceOnInstall = true →
        (m'.table p).residentCount = p.numPages) := by
  obtain ⟨loose, broken, hsound⟩ := hs.sound (sound_boot hboot)
  obtain ⟨hpreloaded, hfit⟩ := preloaded_of_spawn hsound.machine hroom hidle hspawn
  refine ⟨hpreloaded, fun hfree => ?_, fun hstack hmark => ?_⟩
  · exact hpreloaded.whole.mpr (FrameTable.nodup_draws_of_le hsound.machine.pool hfree _)
  · refine hpreloaded.whole.mpr ?_
    rw [hs.config hboot, ← hs.size_directory hboot] at hfit
    rw [Machine.drawn, hs.config hboot, hmark]
    exact FrameTable.nodup_draws_of_nil hsound.machine.pool hstack hfit

/-- A system with two frames. One is free, and the other holds a page that is referenced. -/
def halfEmpty : System := (ofMachine (started ⟨2, 0, true⟩ (.empty none))).run
  [.spawn (.zeroes "gone" 1) [] .demand, .step 0, .request 0 (.fault ⟨0⟩), .step 0, .step 0, .step 0,
    .spawn (.zeroes "stays" 1) [] .demand, .step 0, .request 1 (.fault ⟨0⟩), .step 0, .step 0, .step 0,
    .release 0]

/-- A process that is created when the system is half empty. -/
def latecomer : UserProcess :=
  (halfEmpty.after (.spawn (.zeroes "late" 1) [] .eager)).processes.getLast (List.cons_ne_nil _ _)

set_option maxRecDepth 20000 in
/-- The process has two pages, and there are two frames, but its second page gets the frame of its
first. -/
theorem eager_creation_halfEmpty : ∃ m',
    halfEmpty.machine.spawn (.zeroes "late" 1) [] .eager =
      (.finished (.returned (.spawned latecomer)), m') ∧
    halfEmpty.machine.Preloaded m' latecomer ∧ latecomer.numPages = 2 ∧
    (m'.table latecomer).residentCount = 1 := by
  have hreachable : Reachable HasRoom (ofMachine (started ⟨2, 0, true⟩ (.empty none))) halfEmpty :=
    Reachable.start.run (by decide +kernel)
  have hpins : ∀ i ∈ halfEmpty.machine.kernel.frames.directory.entries.toList, i.pins = 0 := by
    decide +kernel
  have hspawn : (halfEmpty.machine.spawn (.zeroes "late" 1) [] .eager).1 =
      .finished (.returned (.spawned latecomer)) := rfl
  refine ⟨_, Prod.ext hspawn rfl, ?_, rfl, by decide +kernel⟩
  have hboot : Machine.boot ⟨2, 0, true⟩ (.empty none) = .ok (started ⟨2, 0, true⟩ (.empty none)) :=
    rfl
  exact (eager_creation hboot hreachable (by decide +kernel)
    (fun f i hi => hpins i (Array.mem_toList_iff.mpr (Array.mem_of_getElem? hi)))
    (Prod.ext hspawn rfl)).1

end System

end DemandPaging
