import DemandPaging.Proofs.ClockRing

/-!
# The second-chance loop

The clock is usually described by a loop without bound (`Clock.SecondChance`): the hand goes round and
round, passes over frames that are free or pinned, takes the mark from a referenced frame and passes
over it, too, and stops just past the first frame that is neither. `Clock.selectVictim` sweeps over
the frames once and remembers the first frame that lost its mark. The loop would come back to that
frame in its second round, so both choose the same frame and leave the same hand and the same marks.
Only if no frame is owned and unpinned, the loop never ends, and the clock chooses none.
-/

namespace DemandPaging

namespace Directory

variable {O : Type}

/-- Whether the clock may choose the frame. -/
def evictable? (d : Directory O) (f : FrameNumber) : Bool :=
  (d.get? f).any fun i => !(i.isFree || i.isPinned)

theorem evictable?_iff {d : Directory O} {f : FrameNumber} :
    d.evictable? f = true ↔ d.Evictable f := by
  cases h : d.get? f with
  | none => simp [evictable?, Evictable, h]
  | some i =>
    rw [← Clock.passes_iff h, evictable?, h, Option.any_some, Bool.not_eq_true']

end Directory

namespace Clock

open Directory

variable {O : Type} {d d' d₁ : Directory O} {f g : FrameNumber} {hand hand' hand₁ : Nat}

/-! ## The loop -/

/-- The loop that starts with the hand at `hand` and the records `d` chooses frame `f`, and leaves the
hand at `hand'` and the records `d'`. -/
inductive SecondChance : Nat → Directory O → FrameNumber → Nat → Directory O → Prop
  /-- A free or pinned frame is passed over. -/
  | skip {hand hand' : Nat} {d d' : Directory O} {f : FrameNumber} {i : FrameInfo O}
      (info : d.get? (.ofNat hand) = some i) (passed : (i.isFree || i.isPinned) = true)
      (rest : SecondChance ((hand + 1) % d.size) d f hand' d') : SecondChance hand d f hand' d'
  /-- A referenced frame loses its mark and is passed over. -/
  | spare {hand hand' : Nat} {d d' : Directory O} {f : FrameNumber} {i : FrameInfo O}
      (info : d.get? (.ofNat hand) = some i) (passed : (i.isFree || i.isPinned) = false)
      (marked : i.referenced = true)
      (rest : SecondChance ((hand + 1) % d.size) (d.set (.ofNat hand) { i with referenced := false })
        f hand' d') : SecondChance hand d f hand' d'
  /-- The first other frame is chosen, and the hand stops just past it. -/
  | choose {hand : Nat} {d : Directory O} {i : FrameInfo O}
      (info : d.get? (.ofNat hand) = some i) (passed : (i.isFree || i.isPinned) = false)
      (unmarked : i.referenced = false) :
      SecondChance hand d (.ofNat hand) ((hand + 1) % d.size) d

namespace SecondChance

/-- The loop can end in one way only. -/
theorem unique (h : SecondChance hand d f hand' d') (h₁ : SecondChance hand d g hand₁ d₁) :
    f = g ∧ hand' = hand₁ ∧ d' = d₁ := by
  induction h with
  | skip info passed _ ih =>
    cases h₁ with
    | skip _ _ rest₁ => exact ih rest₁
    | spare info₁ passed₁ | choose info₁ passed₁ =>
      exact absurd passed (Option.some.inj (info.symm.trans info₁) ▸ Bool.eq_false_iff.mp passed₁)
  | spare info passed marked _ ih =>
    cases h₁ with
    | skip info₁ passed₁ =>
      exact absurd passed₁ (Option.some.inj (info.symm.trans info₁) ▸ Bool.eq_false_iff.mp passed)
    | spare info₁ _ _ rest₁ =>
      cases info.symm.trans info₁
      exact ih rest₁
    | choose info₁ _ unmarked₁ =>
      exact absurd marked (Option.some.inj (info.symm.trans info₁) ▸ Bool.eq_false_iff.mp unmarked₁)
  | choose info passed unmarked =>
    cases h₁ with
    | skip info₁ passed₁ =>
      exact absurd passed₁ (Option.some.inj (info.symm.trans info₁) ▸ Bool.eq_false_iff.mp passed)
    | spare info₁ _ marked₁ =>
      exact absurd marked₁ (Option.some.inj (info.symm.trans info₁) ▸ Bool.eq_false_iff.mp unmarked)
    | choose => exact ⟨rfl, rfl, rfl⟩

/-- The loop chooses a frame that could be chosen from the start. -/
theorem evictable (h : SecondChance hand d f hand' d') : d.Evictable f := by
  induction h with
  | skip _ _ _ ih => exact ih
  | spare info _ _ _ ih => exact (sameButMarks_unmark info false).symm.evictable ih
  | choose info passed => exact (passes_iff info).mp passed

end SecondChance

/-! ## Stretches of a turn -/

/-- The `k` positions from `hand` on. -/
def stretch (hand k n : Nat) : List FrameNumber :=
  (List.range k).map fun i => FrameNumber.ofNat ((hand + i) % n)

theorem stretch_succ (hand k n : Nat) :
    stretch hand (k + 1) n = .ofNat (hand % n) :: stretch (hand + 1) k n := by
  simp [stretch, List.range_succ_eq_map, Function.comp_def, Nat.add_assoc, Nat.add_comm 1]

theorem stretch_add (hand j k n : Nat) :
    stretch hand (j + k) n = stretch hand j n ++ stretch (hand + j) k n := by
  simp [stretch, List.range_add, Function.comp_def, Nat.add_assoc]

/-- A turn in front of one of its frames and behind it. -/
theorem turn_eq_stretch {n j m : Nat} (hj : n = j + (m + 1))
    (hf : FrameNumber.ofNat ((hand + j) % n) = f) :
    turn hand n = stretch hand j n ++ f :: stretch (hand + j + 1) m n := by
  rw [← hf, ← stretch_succ, ← stretch_add, ← hj]
  rfl

/-- There is a frame under the hand. -/
theorem exists_info (hpos : 0 < d.size) (hsize : d.size ≤ wordBound) (hand : Nat) :
    ∃ i, d.get? (.ofNat (hand % d.size)) = some i := by
  have hlt : hand % d.size < d.size := Nat.mod_lt _ hpos
  exact ⟨_, Array.getElem?_eq_getElem (by rwa [FrameNumber.toNat_ofNat (by omega)])⟩

/-- A stretch up to the first frame with the property `p`, if there is one. -/
theorem exists_first (p : FrameNumber → Prop) (hand k n : Nat) :
    (∀ g ∈ stretch hand k n, ¬ p g) ∨ ∃ j m, k = j + (m + 1) ∧
      p (.ofNat ((hand + j) % n)) ∧ ∀ g ∈ stretch hand j n, ¬ p g := by
  induction k generalizing hand with
  | zero => exact .inl (by simp [stretch])
  | succ k ih =>
    by_cases hp : p (.ofNat (hand % n))
    · exact .inr ⟨0, k, (Nat.zero_add _).symm, hp, by simp [stretch]⟩
    · obtain hall | ⟨j, m, rfl, hj, hbefore⟩ := ih (hand + 1)
      · exact .inl (by rw [stretch_succ]; exact List.forall_mem_cons.mpr ⟨hp, hall⟩)
      · refine .inr ⟨j + 1, m, by omega, ?_, ?_⟩
        · rwa [← Nat.add_right_comm, Nat.add_assoc] at hj
        · rw [stretch_succ]
          exact List.forall_mem_cons.mpr ⟨hp, hbefore⟩

/-! ## The first round -/

/-- The frames of `fs` are behind the hand: the marks of those that could be chosen are gone, and
nothing else has changed. -/
structure Passed (d d' : Directory O) (fs : List FrameNumber) : Prop where
  alike : SameButMarks d d'
  cleared : ∀ g ∈ fs, d.Evictable g → d'.referenced g = false
  others : ∀ g, g ∉ fs → d'.get? g = d.get? g

theorem Passed.nil (d : Directory O) : Passed d d [] :=
  ⟨⟨rfl, fun _ => rfl⟩, fun _ hg => absurd hg List.not_mem_nil, fun _ _ => rfl⟩

/-- One more frame in front that cannot be chosen. -/
theorem Passed.cons_skip {fs : List FrameNumber} (h : Passed d d' fs) (hf : ¬ d.Evictable f) :
    Passed d d' (f :: fs) where
  alike := h.alike
  cleared g hg hev := by
    obtain rfl | hg := List.mem_cons.mp hg
    · exact absurd hev hf
    · exact h.cleared g hg hev
  others g hg := h.others g fun hmem => hg (List.mem_cons_of_mem f hmem)

/-- One more frame in front that has lost its mark. -/
theorem Passed.cons_spare {fs : List FrameNumber} {i : FrameInfo O} (hi : d.get? f = some i)
    (h : Passed (d.set f { i with referenced := false }) d' fs) (hf : f ∉ fs) :
    Passed d d' (f :: fs) where
  alike := (sameButMarks_unmark hi false).trans h.alike
  cleared g hg hev := by
    obtain rfl | hg := List.mem_cons.mp hg
    · rw [referenced, h.others g hf, get?_set, if_pos rfl, hi]
      rfl
    · exact h.cleared g hg ((sameButMarks_unmark hi false).evictable hev)
  others g hg := by
    rw [List.mem_cons, not_or] at hg
    rw [h.others g hg.2, get?_set, if_neg hg.1]

/-- Sweep and loop pass over a stretch in which every frame that can be chosen is referenced, and leave
the same marks. The sweep remembers the first of these frames. -/
theorem sweep_stretch (k : Nat) (hand : Nat) (d : Directory O) (hpos : 0 < d.size)
    (hsize : d.size ≤ wordBound) (hnodup : (stretch hand k d.size).Nodup)
    (hmarked : ∀ g ∈ stretch hand k d.size, d.Evictable g → d.referenced g = true) :
    ∃ d', Passed d d' (stretch hand k d.size) ∧
      (∀ rest c, sweep (stretch hand k d.size ++ rest) c d =
        sweep rest (c.or ((stretch hand k d.size).find? d.evictable?)) d') ∧
      ∀ f hand' d'', SecondChance ((hand + k) % d.size) d' f hand' d'' →
        SecondChance (hand % d.size) d f hand' d'' := by
  induction k generalizing hand d with
  | zero => exact ⟨d, Passed.nil d, fun rest c => by simp [stretch], fun _ _ _ h => h⟩
  | succ k ih =>
    rw [stretch_succ] at hnodup hmarked ⊢
    obtain ⟨hnotin, hnodup⟩ := List.nodup_cons.mp hnodup
    obtain ⟨hmark, hmarked⟩ := List.forall_mem_cons.mp hmarked
    obtain ⟨i, hi⟩ := exists_info hpos hsize hand
    have hnext : (hand % d.size + 1) % d.size = (hand + 1) % d.size := Nat.mod_add_mod ..
    have hend : hand + (k + 1) = hand + 1 + k := by omega
    cases hpass : i.isFree || i.isPinned with
    | true =>
      have hskipped : ¬ d.Evictable (.ofNat (hand % d.size)) := by simp [← passes_iff hi, hpass]
      obtain ⟨d', hpassed, hsweep, hloop⟩ := ih (hand + 1) d hpos hsize hnodup hmarked
      refine ⟨d', hpassed.cons_skip hskipped, fun rest c => ?_, fun f hand' d'' h => ?_⟩
      · rw [List.find?_cons_of_neg (by rwa [evictable?_iff]), ← hsweep, List.cons_append, sweep, hi]
        simp only [hpass, if_true]
      · rw [hend] at h
        exact .skip hi hpass (hnext ▸ hloop f hand' d'' h)
    | false =>
      have hev : d.Evictable (.ofNat (hand % d.size)) := (passes_iff hi).mp hpass
      have href : i.referenced = true := (referenced_eq hi).symm.trans (hmark hev)
      let d₁ := d.set (.ofNat (hand % d.size)) { i with referenced := false }
      have hsize₁ : d₁.size = d.size := size_set ..
      have halike : SameButMarks d d₁ := sameButMarks_unmark hi false
      have hmarked₁ : ∀ g ∈ stretch (hand + 1) k d.size, d₁.Evictable g → d₁.referenced g = true := by
        intro g hg hev₁
        have hne : g ≠ .ofNat (hand % d.size) := fun heq => hnotin (heq ▸ hg)
        have hsame : d₁.get? g = d.get? g := by rw [get?_set, if_neg hne]
        rw [referenced, hsame]
        exact hmarked g hg (halike.symm.evictable hev₁)
      have hsame : d₁.evictable? = d.evictable? := by
        funext g
        rw [Bool.eq_iff_iff, evictable?_iff, evictable?_iff]
        exact ⟨halike.symm.evictable, halike.evictable⟩
      rw [← hsize₁] at hpos hsize hnodup hmarked₁
      obtain ⟨d', hpassed, hsweep, hloop⟩ := ih (hand + 1) d₁ hpos hsize hnodup hmarked₁
      rw [hsize₁] at hpassed hsweep hloop
      refine ⟨d', .cons_spare hi hpassed hnotin, fun rest c => ?_, fun f hand' d'' h => ?_⟩
      · rw [List.find?_cons_of_pos (evictable?_iff.mpr hev), List.cons_append, sweep, hi]
        simp only [hpass, Bool.false_eq_true, if_false, href, if_true]
        rw [hsweep]
        cases c <;> rfl
      · rw [hend] at h
        exact .spare hi hpass href (hnext ▸ hloop f hand' d'' h)

/-! ## The second round -/

/-- The loop passes over a stretch in which no frame can be chosen. -/
theorem SecondChance.skips (k : Nat) {hand : Nat} (hpos : 0 < d.size) (hsize : d.size ≤ wordBound)
    (hnone : ∀ g ∈ stretch hand k d.size, ¬ d.Evictable g)
    (h : SecondChance ((hand + k) % d.size) d f hand' d') :
    SecondChance (hand % d.size) d f hand' d' := by
  induction k generalizing hand with
  | zero => exact h
  | succ k ih =>
    rw [stretch_succ] at hnone
    obtain ⟨hfirst, hnone⟩ := List.forall_mem_cons.mp hnone
    obtain ⟨i, hi⟩ := exists_info hpos hsize hand
    rw [← passes_iff hi, Bool.not_eq_false] at hfirst
    rw [show hand + (k + 1) = hand + 1 + k by omega] at h
    have hnext : (hand % d.size + 1) % d.size = (hand + 1) % d.size := Nat.mod_add_mod ..
    exact .skip hi hfirst (hnext ▸ ih hnone h)

/-- The loop chooses the frame under the hand. -/
theorem SecondChance.here {hand : Nat} (hpos : 0 < d.size) (hsize : d.size ≤ wordBound)
    (hf : FrameNumber.ofNat (hand % d.size) = f) (hev : d.Evictable f)
    (hmark : d.referenced f = false) :
    SecondChance (hand % d.size) d f ((f.toNat + 1) % d.size) d := by
  subst hf
  obtain ⟨i, hi, -⟩ := id hev
  rw [referenced_eq hi] at hmark
  rw [FrameNumber.toNat_ofNat (by have := Nat.mod_lt hand hpos; omega)]
  exact .choose hi ((passes_iff hi).mpr hev) hmark

/-! ## The clock and the loop -/

/-- The clock stops where the loop stops if some frame that can be chosen is not referenced. The
frame chosen is not referenced then. -/
theorem victim_of_unreferenced {c : Clock} {j m : Nat} (hsize : d.size ≤ wordBound)
    (hhand : c.hand < d.size) (hj : d.size = j + (m + 1))
    (hf : FrameNumber.ofNat ((c.hand + j) % d.size) = f) (hev : d.Evictable f)
    (hmark : d.referenced f = false)
    (hbefore : ∀ g ∈ stretch c.hand j d.size, d.Evictable g → d.referenced g = true) :
    ∃ d', c.selectVictim d = (some f, ⟨(f.toNat + 1) % d.size⟩, d') ∧
      SecondChance c.hand d f ((f.toNat + 1) % d.size) d' := by
  have hpos : 0 < d.size := by omega
  have hturn := turn_eq_stretch hj hf
  have hnodup := nodup_turn hsize c.hand
  rw [hturn, List.nodup_append] at hnodup
  have hnotin : f ∉ stretch c.hand j d.size :=
    fun h => hnodup.2.2 f h f List.mem_cons_self rfl
  obtain ⟨d', hpassed, hsweep, hloop⟩ := sweep_stretch j c.hand d hpos hsize hnodup.1 hbefore
  have hsize' : d'.size = d.size := hpassed.alike.1.symm
  have hmark' : d'.referenced f = false := by rwa [referenced, hpassed.others f hnotin]
  have hev' : d'.Evictable f := hpassed.alike.evictable hev
  have hhere : SecondChance ((c.hand + j) % d.size) d' f ((f.toNat + 1) % d.size) d' := by
    rw [← hsize'] at hpos hsize hf ⊢
    exact .here hpos hsize hf hev' hmark'
  refine ⟨d', ?_, ?_⟩
  · rw [selectVictim, hturn, hsweep, sweep_unreferenced hev' hmark']
  · have hwalk := hloop f _ _ hhere
    rwa [Nat.mod_eq_of_lt hhand] at hwalk

/-- The clock stops where the loop stops if every frame that can be chosen is referenced: the loop
goes round and comes back to the first of them. -/
theorem victim_of_referenced {c : Clock} {j m : Nat} (hsize : d.size ≤ wordBound)
    (hhand : c.hand < d.size) (hj : d.size = j + (m + 1))
    (hf : FrameNumber.ofNat ((c.hand + j) % d.size) = f) (hev : d.Evictable f)
    (hfirst : ∀ g ∈ stretch c.hand j d.size, ¬ d.Evictable g)
    (hmarked : ∀ g, d.Evictable g → d.referenced g = true) :
    ∃ d', c.selectVictim d = (some f, ⟨(f.toNat + 1) % d.size⟩, d') ∧
      SecondChance c.hand d f ((f.toNat + 1) % d.size) d' := by
  have hpos : 0 < d.size := by omega
  have hturn := turn_eq_stretch hj hf
  have hfind : (turn c.hand d.size).find? d.evictable? = some f := by
    refine List.find?_eq_some_iff_append.mpr ⟨evictable?_iff.mpr hev, _, _, hturn, fun g hg => ?_⟩
    rw [Bool.not_eq_true', ← Bool.not_eq_true, evictable?_iff]
    exact hfirst g hg
  obtain ⟨d', hpassed, hsweep, hloop⟩ := sweep_stretch d.size c.hand d hpos hsize
    (nodup_turn hsize c.hand) fun g _ => hmarked g
  have hsize' : d'.size = d.size := hpassed.alike.1.symm
  have hmark' : d'.referenced f = false :=
    hpassed.cleared f (show f ∈ turn c.hand d.size by simp [hturn]) hev
  have hround : SecondChance (c.hand % d.size) d' f ((f.toNat + 1) % d.size) d' := by
    have hfirst' : ∀ g ∈ stretch c.hand j d'.size, ¬ d'.Evictable g := fun g hg hg' =>
      hfirst g (hsize' ▸ hg) (hpassed.alike.symm.evictable hg')
    rw [← hsize'] at hpos hsize hf ⊢
    exact .skips j hpos hsize hfirst' (.here hpos hsize hf (hpassed.alike.evictable hev) hmark')
  refine ⟨d', ?_, ?_⟩
  · have hresult : sweep (turn c.hand d.size) none d = (some f, d') := by
      have h := hsweep [] none
      rw [List.append_nil, Option.none_or] at h
      exact h.trans (congrArg (·, d') hfind)
    rw [selectVictim, hresult]
  · rw [← Nat.add_mod_right] at hround
    have hwalk := hloop f _ _ hround
    rwa [Nat.mod_eq_of_lt hhand] at hwalk

/-- If some frame can be chosen, clock and loop choose the same one. It is referenced only if all frames
that can be chosen are. -/
theorem exists_victim {c : Clock} (hsize : d.size ≤ wordBound) (hhand : c.hand < d.size)
    (hg : d.Evictable g) : ∃ f d', c.selectVictim d = (some f, ⟨(f.toNat + 1) % d.size⟩, d') ∧
      SecondChance c.hand d f ((f.toNat + 1) % d.size) d' ∧
      (d.referenced f = true → ∀ g, d.Evictable g → d.referenced g = true) := by
  have hin : ∀ g, d.Evictable g → g ∈ stretch c.hand d.size d.size := fun g ⟨i, hi, _⟩ =>
    mem_turn c.hand (Array.getElem?_eq_some_iff.mp hi).1
  obtain hall | ⟨j, m, hj, ⟨hev, hmark⟩, hbefore⟩ :=
    exists_first (fun g => d.Evictable g ∧ d.referenced g = false) c.hand d.size d.size
  · have hmarked : ∀ g, d.Evictable g → d.referenced g = true := fun g hg =>
      eq_true_of_ne_false fun h => hall g (hin g hg) ⟨hg, h⟩
    obtain hnone | ⟨j, m, hj, hev, hfirst⟩ := exists_first d.Evictable c.hand d.size d.size
    · exact absurd hg (hnone g (hin g hg))
    · obtain ⟨d', hchoice, hloop⟩ := victim_of_referenced hsize hhand hj rfl hev hfirst hmarked
      exact ⟨_, d', hchoice, hloop, fun _ => hmarked⟩
  · have hbefore' : ∀ g ∈ stretch c.hand j d.size, d.Evictable g → d.referenced g = true :=
      fun g hg hev => eq_true_of_ne_false fun h => hbefore g hg ⟨hev, h⟩
    obtain ⟨d', hchoice, hloop⟩ := victim_of_unreferenced hsize hhand hj rfl hev hmark hbefore'
    exact ⟨_, d', hchoice, hloop, fun h => absurd (hmark.symm.trans h) Bool.false_ne_true⟩

theorem selectVictim_sameButMarks (c : Clock) (d : Directory O) :
    SameButMarks d (c.selectVictim d).2.2 := by
  unfold selectVictim
  split
  · exact ⟨rfl, fun _ => rfl⟩
  · next h =>
      have hmarks := sweep_sameButMarks (turn c.hand d.size) none d
      rwa [h] at hmarks

/-- The frame chosen is owned and unpinned. -/
theorem evictable_victim {c : Clock} (h : (c.selectVictim d).1 = some f) : d.Evictable f := by
  unfold selectVictim at h
  split at h
  · contradiction
  · next hsweep =>
    cases h
    exact (evictable_of_sweep _ none d (congrArg Prod.fst hsweep)).resolve_left nofun

/-- Without a victim nothing changes. -/
theorem selectVictim_of_none {c : Clock} (h : (c.selectVictim d).1 = none) :
    c.selectVictim d = (none, c, d) := by
  unfold selectVictim at h ⊢
  split
  · rfl
  · next heq => rw [heq] at h; contradiction

/-- **The bounded sweep is the second-chance loop.** The clock chooses a frame, and leaves a hand and
marks, exactly if the loop does so. It chooses none exactly if no frame is owned and unpinned, and
then leaves the hand and all records as they were. A referenced frame is chosen only if every owned
and unpinned frame is referenced, and owner, page and pins of every frame stay the same. -/
theorem selectVictim_iff_secondChance {c : Clock} (hsize : d.size ≤ wordBound)
    (hhand : c.hand < d.size) :
    (∀ f c' d', c.selectVictim d = (some f, c', d') ↔ SecondChance c.hand d f c'.hand d') ∧
    ((c.selectVictim d).1 = none ↔ ∀ f, ¬ d.Evictable f) ∧
    ((c.selectVictim d).1 = none → c.selectVictim d = (none, c, d)) ∧
    (∀ f, (c.selectVictim d).1 = some f → d.referenced f = true →
      ∀ g, d.Evictable g → d.referenced g = true) ∧
    SameButMarks d (c.selectVictim d).2.2 := by
  have hvictim : ∀ g, d.Evictable g → _ := fun g hg => exists_victim hsize hhand hg
  have hsome : ∀ f, (c.selectVictim d).1 = some f → d.Evictable f := fun f => evictable_victim
  refine ⟨fun f c' d' => ⟨fun h => ?_, fun h => ?_⟩, ⟨fun h f hf => ?_, fun h => ?_⟩,
    selectVictim_of_none, fun f hf hmark => ?_, selectVictim_sameButMarks c d⟩
  · obtain ⟨f₁, d₁, hchoice, hloop, -⟩ := hvictim f (hsome f (congrArg Prod.fst h))
    rw [hchoice] at h
    cases h
    exact hloop
  · obtain ⟨f₁, d₁, hchoice, hloop, -⟩ := hvictim f h.evictable
    obtain ⟨rfl, hhand', rfl⟩ := h.unique hloop
    rw [hchoice, ← hhand']
  · obtain ⟨f₁, d₁, hchoice, -⟩ := hvictim f hf
    rw [hchoice] at h
    contradiction
  · cases hchoice : (c.selectVictim d).1 with
    | none => rfl
    | some f => exact absurd (hsome f hchoice) (h f)
  · obtain ⟨f₁, d₁, hchoice, -, hall⟩ := hvictim f (hsome f hf)
    rw [hchoice] at hf
    cases hf
    exact hall hmark

/-- Three frames of one owner, of which the first is referenced, the second pinned and referenced, and
the third free. -/
def referencedPinnedFree : Directory Unit :=
  ⟨#[⟨some (), ⟨0⟩, 0, true⟩, ⟨some (), ⟨1⟩, 1, true⟩, .free]⟩

/-- The hand goes round once from the pinned frame and chooses the referenced frame, which it meets
again: its mark is gone, and that of the pinned frame stays. -/
theorem selectVictim_iff_secondChance_referencedPinnedFree :
    referencedPinnedFree.size ≤ wordBound ∧ (⟨1⟩ : Clock).hand < referencedPinnedFree.size ∧
    SecondChance 1 referencedPinnedFree ⟨0⟩ 1
      (referencedPinnedFree.set ⟨0⟩ ⟨some (), ⟨0⟩, 0, false⟩) := by
  have hsize : referencedPinnedFree.size ≤ wordBound := by decide
  have hhand : (⟨1⟩ : Clock).hand < referencedPinnedFree.size := by decide
  exact ⟨hsize, hhand, ((selectVictim_iff_secondChance hsize hhand).1 ⟨0⟩ ⟨1⟩ _).mp rfl⟩

end Clock

end DemandPaging
