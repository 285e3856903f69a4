import DemandPaging.Proofs.Parking
import DemandPaging.Proofs.SecondChance
import DemandPaging.Proofs.SingleCalls

/-!
# A full store

A page that was written to cannot be evicted while the store is full, and an attempt for which the
clock chose such a page fails. It is not in vain: the hand stops past that page, so the next attempt
looks further. How far the clock still is from a given frame is measured by `Clock.lag`, the number
of positions up to the frame, and one more round if the frame has its mark. Every position that the
second-chance loop leaves behind lowers the lag by one, so if there is one frame that can be taken
without room in the store (`Machine.Yields`), the clock chooses it at last, and the attempt succeeds.
-/

namespace DemandPaging

open Machine

/-! ## How far the clock is from a frame -/

namespace Directory

variable {O : Type} {d : Directory O} {f g : FrameNumber} {i : FrameInfo O}

theorem Evictable.lt (h : d.Evictable f) : f.toNat < d.size := by
  obtain ⟨i, hi, -⟩ := h
  exact (Array.getElem?_eq_some_iff.mp hi).1

/-- A mark that was taken is gone. -/
theorem referenced_unmark_self (h : d.get? f = some i) :
    (d.set f { i with referenced := false }).referenced f = false := by
  have hget : (d.set f { i with referenced := false }).get? f =
      some { i with referenced := false } := by
    rw [get?_set, if_pos rfl, h, Option.map_some]
  exact referenced_eq hget

theorem referenced_set_of_ne (hne : g ≠ f) (i : FrameInfo O) :
    (d.set f i).referenced g = d.referenced g := by
  rw [referenced, get?_set, if_neg hne, referenced]

end Directory

namespace Clock

open Directory

variable {O : Type} {d d' : Directory O} {f g : FrameNumber} {hand hand' n : Nat} {c c' : Clock}

/-- Of `n` positions on a ring, those from the hand up to frame `f`, which is not counted. -/
def ahead (n hand : Nat) (f : FrameNumber) : Nat :=
  if hand ≤ f.toNat then f.toNat - hand else f.toNat + n - hand

/-- Positions that the second-chance loop passes at most before it chooses frame `f`, if it chooses no
other: a frame with its mark is met a second time. -/
def lag (hand : Nat) (d : Directory O) (f : FrameNumber) : Nat :=
  ahead d.size hand f + if d.referenced f then d.size else 0

theorem next_hand (hhand : hand < n) :
    (hand + 1) % n = if hand + 1 = n then 0 else hand + 1 := by
  split
  · next heq => rw [heq, Nat.mod_self]
  · exact Nat.mod_eq_of_lt (by omega)

/-- The hand comes nearer to the frames ahead. -/
theorem ahead_next_of_ne (hhand : hand < n) (hf : f.toNat < n) (hne : f.toNat ≠ hand) :
    ahead n ((hand + 1) % n) f + 1 = ahead n hand f := by
  rw [next_hand hhand, ahead, ahead]
  split <;> split <;> split <;> omega

/-- The frame that the hand leaves is a whole round ahead. -/
theorem ahead_next_self (hhand : hand < n) (hf : f.toNat = hand) :
    ahead n ((hand + 1) % n) f + 1 = n ∧ ahead n hand f = 0 := by
  rw [next_hand hhand, ahead, ahead]
  split <;> split <;> split <;> omega

theorem lag_lt_two_mul (hhand : hand < d.size) (hf : f.toNat < d.size) :
    lag hand d f < 2 * d.size := by
  unfold lag ahead
  split <;> split <;> omega

namespace SecondChance

/-- The hand stops at a frame. -/
theorem hand_lt (h : SecondChance hand d f hand' d') (hpos : 0 < d.size) : hand' < d'.size := by
  induction h with
  | skip _ _ _ ih => exact ih hpos
  | spare _ _ _ _ ih => exact ih (by rwa [size_set])
  | choose => exact Nat.mod_lt _ hpos

/-- **A choice of another frame brings the clock nearer.** Every position that the loop leaves behind
lowers the lag of a frame that can be chosen by one. -/
theorem lag_lt (h : SecondChance hand d f hand' d') (hsize : d.size ≤ wordBound)
    (hhand : hand < d.size) (hg : d.Evictable g) (hne : f ≠ g) :
    lag hand' d' g < lag hand d g := by
  induction h with
  | @skip hand hand' d d' f i info passed rest ih =>
    have hglt : g.toNat < d.size := hg.lt
    have hnot : g.toNat ≠ hand := by
      intro heq
      subst heq
      rw [FrameNumber.ofNat_toNat] at info
      rw [← passes_iff info, passed] at hg
      contradiction
    have hnext := ih hsize (Nat.mod_lt _ (by omega)) hg hne
    have hahead := ahead_next_of_ne hhand hglt hnot
    simp only [lag] at hnext ⊢
    omega
  | @spare hand hand' d d' f i info passed marked rest ih =>
    have hglt : g.toNat < d.size := hg.lt
    have hnext := ih (by rwa [size_set]) (by rw [size_set]; exact Nat.mod_lt _ (by omega))
      ((sameButMarks_unmark info false).evictable hg) hne
    simp only [lag, size_set] at hnext ⊢
    by_cases heq : g.toNat = hand
    · -- the mark is gone, but the frame is a whole round ahead now
      subst heq
      rw [FrameNumber.ofNat_toNat] at info hnext
      have hself := ahead_next_self hhand rfl
      rw [referenced_unmark_self info] at hnext
      rw [referenced_eq info, marked, if_pos rfl]
      simp only [Bool.false_eq_true, if_false] at hnext
      omega
    · have hahead := ahead_next_of_ne hhand hglt heq
      have hother : g ≠ .ofNat hand := by
        rintro rfl
        exact heq (FrameNumber.toNat_ofNat (by omega))
      rw [referenced_set_of_ne hother] at hnext
      omega
  | @choose hand d i info passed unmarked =>
    have hnot : g.toNat ≠ hand := by
      rintro rfl
      exact hne (FrameNumber.ofNat_toNat g)
    have hahead := ahead_next_of_ne hhand hg.lt hnot
    simp only [lag]
    omega

end SecondChance

/-- A position and its remainder are the same for a turn. -/
theorem turn_mod (hand n : Nat) : turn (hand % n) n = turn hand n := by
  simp only [turn, Nat.mod_add_mod]

/-- What the clock chooses is what the loop chooses. -/
theorem secondChance_of_selectVictim (hsize : d.size ≤ wordBound)
    (h : c.selectVictim d = (some f, c', d')) :
    SecondChance (c.hand % d.size) d f c'.hand d' := by
  have hev : d.Evictable f := evictable_victim (congrArg Prod.fst h)
  have hpos : 0 < d.size := Nat.zero_lt_of_lt hev.lt
  obtain ⟨f₁, d₁, hchoice, hloop, -⟩ :=
    exists_victim (c := ⟨c.hand % d.size⟩) hsize (Nat.mod_lt _ hpos) hev
  have hsame : (⟨c.hand % d.size⟩ : Clock).selectVictim d = c.selectVictim d := by
    have hsweep := congrArg Prod.fst h
    unfold selectVictim at hsweep ⊢
    rw [turn_mod]
    split
    · next hnone =>
      rw [hnone] at hsweep
      contradiction
    · rfl
  rw [hsame, h] at hchoice
  cases hchoice
  exact hloop

end Clock

namespace FrameTable

variable {O : Type} {t t' : FrameTable O} {f g : FrameNumber}

/-- How far the clock of the pool is from a frame. -/
def lag (t : FrameTable O) (f : FrameNumber) : Nat :=
  Clock.lag (t.clock.hand % t.directory.size) t.directory f

theorem lag_lt_of_selectVictim (hsize : t.directory.size ≤ wordBound)
    (h : t.selectVictim = (some f, t')) (hg : t.directory.Evictable g) (hne : f ≠ g) :
    t'.lag g < t.lag g := by
  have hclock : t.clock.selectVictim t.directory = (some f, t'.clock, t'.directory) := by
    rcases hchoice : t.clock.selectVictim t.directory with ⟨victim, clock, directory⟩
    simp only [selectVictim, hchoice] at h
    cases h
    rfl
  have hpos : 0 < t.directory.size := Nat.zero_lt_of_lt hg.lt
  have hloop := Clock.secondChance_of_selectVictim hsize hclock
  have hlag := hloop.lag_lt hsize (Nat.mod_lt _ hpos) hg hne
  rw [lag, Nat.mod_eq_of_lt (hloop.hand_lt hpos)]
  exact hlag

end FrameTable

/-! ## Attempts with a full store -/

namespace Machine

variable {m m' : Machine} {l : Ledger} {f : FrameNumber}

/-- The frame can be taken even if the store is full: it is not pinned, and its page was not written
to or has a copy already, which is replaced. -/
def Yields (m : Machine) (f : FrameNumber) : Prop :=
  ∃ i q e, m.frameInfo? f = some i ∧ i.pins = 0 ∧ i.owner = some q.pid ∧ m.Registered q ∧
    m.entryOf? q i.page = some e ∧
    (e.dirty = true → m.kernel.swap.contains (q.pid, i.page) = true)

theorem Alike.yields (h : Alike m m') (hf : m.Yields f) : m'.Yields f := by
  obtain ⟨i, q, e, hi, hpins, howner, hq, he, hcopy⟩ := hf
  obtain ⟨j, hj, hjowner, hjpage, hjpins⟩ := h.frameInfo? hi
  have hcontains : m'.kernel.swap.contains (q.pid, j.page) =
      m.kernel.swap.contains (q.pid, i.page) := by
    rw [Swap.contains, h.copies, hjpage]
    rfl
  refine ⟨j, q, e, hj, hjpins.trans hpins, hjowner.trans howner, (h.registered q).mpr hq, ?_, ?_⟩
  · rw [hjpage, h.entryOf?]
    exact he
  · rw [hcontains]
    exact hcopy

/-- A frame that can be taken while the store is full can be cleared. -/
theorem Yields.clears (h : m.Yields f) (hm : m.Sound l) : m.Clears f := by
  obtain ⟨i, q, e, hi, -, howner, hq, he, hcopy⟩ := h
  intro j q' e' hj howner' hq' he' hdirty
  obtain rfl := Option.some.inj (hi.symm.trans hj)
  obtain rfl := hm.census.eq_of_pid (hm.census.mem hq) (hm.census.mem hq')
    (Option.some.inj (howner.symm.trans howner'))
  obtain rfl := Option.some.inj (he.symm.trans he')
  exact Or.inl (hcopy hdirty)

theorem Yields.idle_ne_zero (h : m.Yields f) (hm : m.Sound l) : m.idle ≠ 0 := by
  obtain ⟨i, -, -, hi, hpins, -⟩ := h
  exact fun hidle => (Directory.idle_eq_zero hm.pool.size_le).mp hidle f i hi hpins

end Machine

namespace Action

variable {m m' : Machine} {l : Ledger} {p : UserProcess} {page : PageNumber} {e : PageEntry}
  {f g : FrameNumber}

/-- **A miss with a frame that yields.** The page is brought in, or the clock has chosen another frame,
whose page the store could not take. -/
theorem serveMiss_of_yields (h : m.Sound l) (hbroken : l.broken = []) (ha : m.Absent p page e)
    (hload : m.Loadable p page)
    (hframes : m.kernel.frames.directory.size ≤ maxEntryFrame + 1) (hg : m.Yields g) :
    (∃ f m', (serveMiss p page).run m = .ok (.pinned f) m') ∨
    ∃ c f m', f ≠ g ∧ m.Chosen m' f ∧
      (serveMiss p page).run m = .error (.error (.swap (.full c))) m' := by
  rcases serveMiss_of_loadable h hbroken ha hload hframes (hg.idle_ne_zero h) with
    hserved | ⟨c, f, m', -, hchosen, hclears, hrun⟩
  · exact Or.inl hserved
  · refine Or.inr ⟨c, f, m', ?_, hchosen, hrun⟩
    rintro rfl
    exact hclears (hg.clears h)

end Action

/-! ## Faults that are repeated -/

/-- A fault on the page will be served in the end: its content can be had, and the frame `g` yields. -/
structure Machine.Promising (m : Machine) (l : Ledger) (p : UserProcess) (page : PageNumber)
    (g : FrameNumber) : Prop where
  sound : m.Sound l
  intact : l.broken = []
  registered : m.Registered p
  entry : ∃ e, m.entryOf? p page = some e ∧ e.frame? = none
  loadable : m.Loadable p page
  small : m.kernel.frames.directory.size ≤ maxEntryFrame + 1
  yields : m.Yields g

namespace Machine.Promising

variable {m m' : Machine} {l : Ledger} {p : UserProcess} {page : PageNumber} {f g : FrameNumber}

/-- A choice of the clock takes nothing away. -/
theorem chosen (h : m.Promising l p page g) (hchosen : m.Chosen m' f) : m'.Promising l p page g := by
  have halike := hchosen.swept.alike
  obtain ⟨e, he, habsent⟩ := h.entry
  refine ⟨h.sound.alike halike, h.intact, (halike.registered p).mpr h.registered,
    ⟨e, (halike.entryOf? p page).trans he, habsent⟩, ⟨?_, ?_⟩, ?_, halike.yields h.yields⟩
  · rw [hchosen.swept.swap]
    exact h.loadable.readable
  · rw [halike.storedContent?]
    exact h.loadable.content
  · rw [← halike.marks.1]
    exact h.small

/-- Another choice brings the clock nearer to the frame. -/
theorem lag_lt (h : m.Promising l p page g) (hchosen : m.Chosen m' f) (hne : f ≠ g) :
    m'.kernel.frames.lag g < m.kernel.frames.lag g := by
  obtain ⟨i, q, -, hi, hpins, howner, -⟩ := h.yields
  have hev : m.kernel.frames.directory.Evictable g := ⟨i, hi, howner ▸ Option.some_ne_none _, hpins⟩
  exact FrameTable.lag_lt_of_selectVictim h.sound.pool.size_le hchosen.choice hev hne

end Machine.Promising

namespace Call

variable {m : Machine} {l : Ledger} {p : UserProcess} {page : PageNumber} {f g : FrameNumber}

/-- A fault that got at its page lets go of it and returns, and the page stays where it is. -/
theorem exists_served_fault {m₁ : Machine} (hspec : Action.Resolution m l p page (.ok (.pinned f) m₁)) :
    ∃ m', (Request.fault page).served p (.ok (.pinned f) m₁) = (.finished (.returned .done), m') ∧
      (m'.table p).translate? page = some f := by
  obtain ⟨hmapped, i, hi, -, -, hpins⟩ := hspec.maps
  have hunpin := Action.run_unpin hi hpins
  refine ⟨m₁.withFrames (m₁.kernel.frames.dropPin f i), ?_, hmapped⟩
  simp only [Request.served, Request.visit, Request.transfer, Request.copy?, EStateM.run_bind,
    EStateM.run_pure, hunpin, Request.left]

/-- **One attempt.** The fault is served, or it fails because the store is full. Then the clock is
nearer to the frame that yields. -/
theorem run_fault_of_promising (h : m.Promising l p page g) (hcontains : p.contains page = true) :
    (∃ f m', (fault p page).run m = (.finished (.returned .done), m') ∧
      (m'.table p).translate? page = some f) ∨
    ∃ c m', (fault p page).run m = (.finished (.failed (.swap (.full c)) none), m') ∧
      m'.Promising l p page g ∧ m'.kernel.frames.lag g < m.kernel.frames.lag g := by
  obtain ⟨e, he, habsent⟩ := h.entry
  have hpermitted : (Action.permittedEntry p page .read).run m = .ok e m :=
    Action.run_permittedEntry_of_entry h.registered he rfl
  have hresolve : (Action.resolve p page .read).run m = (Action.serveMiss p page).run m := by
    simp only [Action.resolve, EStateM.run_bind, hpermitted, habsent]
  have hrun : (fault p page).run m = (Request.fault page).served p ((Action.serveMiss p page).run m) := by
    rw [← hresolve]
    exact run_single (.fault hcontains) m
  have hspec := Action.serveMiss_spec h.sound ⟨h.registered, he, habsent⟩
  rcases Action.serveMiss_of_yields h.sound h.intact ⟨h.registered, he, habsent⟩ h.loadable h.small
    h.yields with ⟨f, m₁, hserve⟩ | ⟨c, f, m₁, hne, hchosen, hserve⟩
  · rw [hserve] at hrun hspec
    obtain ⟨m', hserved, hmapped⟩ := exists_served_fault hspec
    exact Or.inl ⟨f, m', hrun.trans hserved, hmapped⟩
  · rw [hserve] at hrun
    exact Or.inr ⟨c, m₁, hrun, h.chosen hchosen, h.lag_lt hchosen hne⟩

/-- The machine after a call was made `k` times, one after the other. -/
def repeated (c : Call) : Nat → Machine → Machine
  | 0, m => m
  | k + 1, m => repeated c k (c.run m).2

/-- A fault that may fail as long as the clock gets nearer does not fail for ever. -/
theorem exists_repeated_fault (hcontains : p.contains page = true) :
    ∀ (n : Nat) (m : Machine), m.Promising l p page g → m.kernel.frames.lag g < n →
      ∃ j < n, (∀ i < j, ∃ c m', (fault p page).run ((fault p page).repeated i m) =
          (.finished (.failed (.swap (.full c)) none), m')) ∧
        ∃ f m', (fault p page).run ((fault p page).repeated j m) =
          (.finished (.returned .done), m') ∧ (m'.table p).translate? page = some f := by
  intro n
  induction n with
  | zero => exact fun m _ hlag => absurd hlag (Nat.not_lt_zero _)
  | succ n ih =>
    intro m h hlag
    rcases run_fault_of_promising h hcontains with hdone | ⟨c, m₁, hrun, h₁, hlt⟩
    · exact ⟨0, Nat.succ_pos n, fun _ hi => absurd hi (Nat.not_lt_zero _), hdone⟩
    · have hnext : ∀ k, (fault p page).repeated (k + 1) m = (fault p page).repeated k m₁ := by
        intro k
        rw [repeated, hrun]
      obtain ⟨j, hj, hfails, hserved⟩ := ih m₁ h₁ (by omega)
      refine ⟨j + 1, Nat.succ_lt_succ hj, fun i hi => ?_, by rwa [hnext]⟩
      cases i with
      | zero => exact ⟨c, m₁, hrun⟩
      | succ i =>
        rw [hnext]
        exact hfails i (Nat.lt_of_succ_lt_succ hi)

end Call

namespace System

variable {s : System} {config : Config} {swap : Swap} {m : Machine} {p : UserProcess}
  {page : PageNumber} {g : FrameNumber}

/-- **A full store does not stop a fault for ever.** In every system that is reached without a teardown
that stopped half way, let a page that is not resident be asked for whose content can be had, and let
there be a frame that can be taken without room in the store: it is not pinned, and its page was not
written to or has a copy already. If nothing else happens, then a fault on the page that is tried over
and over fails only because the store is full, and it is served before it was tried more than twice
for every frame. -/
theorem exists_repeated_fault_served (hboot : Machine.boot config swap = .ok m)
    (hframes : config.frameCount ≤ maxEntryFrame + 1) (hs : History HasRoom (ofMachine m) s [])
    (hmiss : s.machine.Misses p page .read) (hload : s.machine.Loadable p page)
    (hg : s.machine.Yields g) :
    ∃ j < 2 * config.frameCount,
      (∀ i < j, ∃ c m', (Call.fault p page).run ((Call.fault p page).repeated i s.machine) =
        (.finished (.failed (.swap (.full c)) none), m')) ∧
      ∃ f m', (Call.fault p page).run ((Call.fault p page).repeated j s.machine) =
        (.finished (.returned .done), m') ∧ (m'.table p).translate? page = some f := by
  obtain ⟨loose, hsound⟩ := hs.sound hboot fun _ _ ha => ha
  have hsize := hs.reachable.size_directory hboot
  have hp := hsound.machine.census.mem hmiss.registered
  obtain ⟨-, e, he, -, habsent⟩ := ((hs.reachable.marked hboot).misses_iff hp).mp hmiss
  have hpromising : s.machine.Promising _ p page g :=
    ⟨hsound.machine, rfl, hmiss.registered, ⟨e, he, habsent⟩, hload, hsize ▸ hframes, hg⟩
  have hlt : g.toNat < s.machine.kernel.frames.directory.size := by
    obtain ⟨i, -, -, hi, -⟩ := hg
    exact FrameTable.lt_of_info? hi
  have hlag : s.machine.kernel.frames.lag g < 2 * config.frameCount := by
    rw [← hsize]
    exact Clock.lag_lt_two_mul (Nat.mod_lt _ (Nat.zero_lt_of_lt hlt)) hlt
  exact Call.exists_repeated_fault hmiss.contains _ s.machine hpromising hlag

/-- A system with two frames and no room for copies. A page that was written to lies in one frame, and
a page that was only brought in lies in the other. -/
def clogged : System := (ofMachine (started ⟨2, 2, true⟩ (.empty (some 0)))).run
  [.spawn (Image.ofMemory .empty).toExecutable [] .demand, .step 0, .request 0 (.write .zero [7]),
    .step 0, .step 0, .step 0, .step 0, .request 0 (.fault ⟨1⟩), .step 0, .step 0, .step 0]

/-- The clock chooses the page that was written to at first, and then the other one. -/
theorem exists_repeated_fault_served_clogged : ∃ p ∈ clogged.processes, ∃ j < 4, 0 < j ∧
    ∃ f m', (Call.fault p ⟨2⟩).run ((Call.fault p ⟨2⟩).repeated j clogged.machine) =
      (.finished (.returned .done), m') ∧ (m'.table p).translate? ⟨2⟩ = some f := by
  have hhistory : History HasRoom (ofMachine (started ⟨2, 2, true⟩ (.empty (some 0)))) clogged [] :=
    History.start.run (by decide +kernel)
  let p := clogged.processes.head (List.cons_ne_nil _ _)
  have hmisses : clogged.machine.Misses p ⟨2⟩ .read := ⟨rfl, rfl, nofun, by decide +kernel⟩
  have hloadable : clogged.machine.Loadable p ⟨2⟩ :=
    ⟨rfl, Option.isSome_iff_exists.mp (by decide +kernel)⟩
  have hyields : clogged.machine.Yields (.ofNat 1) :=
    ⟨_, p, _, rfl, rfl, rfl, rfl, rfl, fun hdirty => absurd hdirty (by decide +kernel)⟩
  have hfirst : ((Call.fault p ⟨2⟩).run clogged.machine).1.FailsInTransfer := by decide +kernel
  obtain ⟨j, hj, -, f, m', hdone, hmapped⟩ := @exists_repeated_fault_served clogged ⟨2, 2, true⟩
    (.empty (some 0)) (started ⟨2, 2, true⟩ (.empty (some 0))) p ⟨2⟩ (.ofNat 1) rfl (by decide)
    hhistory hmisses hloadable hyields
  refine ⟨p, List.head_mem _, j, hj, Nat.pos_of_ne_zero ?_, f, m', hdone, hmapped⟩
  rintro rfl
  rw [Call.repeated] at hdone
  rw [hdone] at hfirst
  contradiction

end System

end DemandPaging
