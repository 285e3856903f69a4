import Mathlib.Data.List.Rotate
import Mathlib.Data.List.TakeWhile
import DemandPaging.Proofs.Pool

/-!
# The clock as a queue

When every frame can be evicted, the clock is a queue: the frames stand in the order in which the hand
comes to them, each with its mark (`Clock.ring`). Choosing a victim takes frames from the front. Those
that are referenced lose their mark and go to the back, and the first one that is not is the victim; if
there is none, it is the first of all. The frame goes to the back, too, with the mark that it has with
its new page (`Clock.next`).
-/

namespace DemandPaging

namespace Directory

variable {O : Type}

/-- Whether a frame is marked as referenced. -/
def referenced (d : Directory O) (f : FrameNumber) : Bool := (d.get? f).any FrameInfo.referenced

theorem referenced_eq {d : Directory O} {f : FrameNumber} {i : FrameInfo O}
    (h : d.get? f = some i) : d.referenced f = i.referenced := by
  rw [referenced, h, Option.any_some]

end Directory

namespace Clock

open Directory

variable {O : Type}

/-! ## Turns -/

theorem turn_eq_rotate (hand n : Nat) :
    turn hand n = ((List.range n).map FrameNumber.ofNat).rotate hand := by
  refine List.ext_getElem (by simp [turn]) fun i hi hi' => ?_
  simp [turn, List.getElem_rotate, Nat.add_comm hand i]

theorem length_turn (hand n : Nat) : (turn hand n).length = n := by simp [turn]

theorem nodup_turn {n : Nat} (h : n ≤ wordBound) (hand : Nat) : (turn hand n).Nodup := by
  rw [turn_eq_rotate, List.nodup_rotate, List.nodup_map_iff_inj_on List.nodup_range]
  intro i hi j hj heq
  rw [List.mem_range] at hi hj
  rw [← FrameNumber.toNat_ofNat (show i < wordBound by omega), heq,
    FrameNumber.toNat_ofNat (by omega)]

theorem toNat_lt_of_mem_turn {f : FrameNumber} {hand n : Nat} (hn : n ≤ wordBound)
    (h : f ∈ turn hand n) : f.toNat < n := by
  rw [turn_eq_rotate, List.mem_rotate, List.mem_map] at h
  obtain ⟨i, hi, rfl⟩ := h
  rw [List.mem_range] at hi
  rwa [FrameNumber.toNat_ofNat (by omega)]

/-- Just past frame `f` the turn begins with what comes behind `f`. -/
theorem turn_past {hand n : Nat} (hn : n ≤ wordBound) {f : FrameNumber} {before behind : List FrameNumber}
    (h : turn hand n = before ++ f :: behind) :
    turn ((f.toNat + 1) % n) n = behind ++ (before ++ [f]) := by
  have hlength : before.length < n := by
    rw [← length_turn hand n, h]
    simp
  have hf : f.toNat = (hand + before.length) % n := by
    have hget : (turn hand n)[before.length]? = some f := by simp [h]
    simp only [turn, List.getElem?_map, List.getElem?_range hlength, Option.map_some,
      Option.some.injEq] at hget
    rw [← hget, FrameNumber.toNat_ofNat (lt_of_lt_of_le (Nat.mod_lt _ (by omega)) hn)]
  have hmod : ((List.range n).map FrameNumber.ofNat).rotate ((f.toNat + 1) % n) =
      ((List.range n).map FrameNumber.ofNat).rotate (hand + (before.length + 1)) := by
    rw [hf, Nat.mod_add_mod, ← List.rotate_mod _ (hand + (before.length + 1)), List.length_map,
      List.length_range, Nat.add_assoc]
  calc turn ((f.toNat + 1) % n) n = (turn hand n).rotate (before.length + 1) := by
        rw [turn_eq_rotate, hmod, turn_eq_rotate, List.rotate_rotate]
    _ = ((before ++ [f]) ++ behind).rotate (before ++ [f]).length := by
        rw [h, List.length_append, List.length_singleton, List.append_assoc, List.singleton_append]
    _ = behind ++ (before ++ [f]) := List.rotate_append_length_eq ..

/-! ## A sweep over frames that can be evicted -/

/-- The records of `d'` are those of `d`, but for the frames of `fs`, which have lost their marks. -/
def Unmarks (d d' : Directory O) (fs : List FrameNumber) : Prop :=
  d'.size = d.size ∧ ∀ g, d'.get? g = if g ∈ fs then (d.get? g).map FrameInfo.unmarked else d.get? g

/-- A sweep passes over frames that are referenced. They lose their marks, and the first of them is the
candidate. -/
theorem sweep_referenced (fs rest : List FrameNumber) (c : Option FrameNumber) (d : Directory O)
    (hall : ∀ f ∈ fs, d.Evictable f ∧ d.referenced f = true) (hnodup : fs.Nodup) :
    ∃ d', Unmarks d d' fs ∧ sweep (fs ++ rest) c d = sweep rest (c.or fs.head?) d' := by
  induction fs generalizing c d with
  | nil => exact ⟨d, ⟨rfl, fun g => by simp⟩, by simp⟩
  | cons f fs ih =>
    obtain ⟨⟨⟨i, hi, hevictable⟩, hmark⟩, hfs⟩ := List.forall_mem_cons.mp hall
    obtain ⟨hnotin, hnodup'⟩ := List.nodup_cons.mp hnodup
    rw [referenced_eq hi] at hmark
    let d₁ := d.set f { i with referenced := false }
    have hother : ∀ g, g ≠ f → d₁.get? g = d.get? g := fun g hg => by rw [get?_set, if_neg hg]
    have hfs₁ : ∀ g ∈ fs, d₁.Evictable g ∧ d₁.referenced g = true := fun g hg => by
      have hsame := hother g fun heq => hnotin (heq ▸ hg)
      obtain ⟨⟨j, hj, hj'⟩, href⟩ := hfs g hg
      exact ⟨⟨j, hsame.trans hj, hj'⟩, (congrArg (·.any FrameInfo.referenced) hsame).trans href⟩
    obtain ⟨d', ⟨hsize, hget⟩, hsweep⟩ := ih (c.or (some f)) d₁ hfs₁ hnodup'
    refine ⟨d', ⟨hsize.trans (size_set ..), fun g => (hget g).trans ?_⟩, ?_⟩
    · by_cases hg : g = f
      · subst hg
        rw [if_neg hnotin, if_pos List.mem_cons_self, get?_set, if_pos rfl, hi]
        rfl
      · rw [hother g hg]
        simp only [List.mem_cons, hg, false_or]
    · have hpass := (passes_iff hi).mpr ⟨i, hi, hevictable⟩
      simp only [List.cons_append, sweep, hi, hpass, Bool.false_eq_true, if_false, hmark, if_true,
        List.head?_cons]
      rw [hsweep]
      cases c <;> rfl

/-- A sweep chooses a frame that is not referenced. -/
theorem sweep_unreferenced {f : FrameNumber} {d : Directory O} (hevictable : d.Evictable f)
    (hmark : d.referenced f = false) (rest : List FrameNumber) (c : Option FrameNumber) :
    sweep (f :: rest) c d = (some f, d) := by
  obtain ⟨i, hi, h⟩ := hevictable
  rw [referenced_eq hi] at hmark
  simp only [sweep, hi, (passes_iff hi).mpr ⟨i, hi, h⟩, Bool.false_eq_true, if_false, hmark]

/-! ## The ring -/

/-- The frames in the order in which the hand comes to them, each with its mark. -/
def ring (hand : Nat) (d : Directory O) : List (FrameNumber × Bool) :=
  (turn hand d.size).map fun f => (f, d.referenced f)

/-- The frames of a ring without their marks. -/
def cleared (r : List (FrameNumber × Bool)) : List (FrameNumber × Bool) :=
  r.map fun x => (x.1, false)

/-- The victim, and the ring after its frame was marked with `mark`. -/
def next (mark : Bool) (r : List (FrameNumber × Bool)) :
    Option (FrameNumber × List (FrameNumber × Bool)) :=
  match r.dropWhile (·.2) with
  | x :: rest => some (x.1, rest ++ (cleared (r.takeWhile (·.2)) ++ [(x.1, mark)]))
  | [] => r.head?.map fun x => (x.1, cleared r.tail ++ [(x.1, mark)])

theorem map_fst_ring (hand : Nat) (d : Directory O) :
    (ring hand d).map Prod.fst = turn hand d.size := by
  simp [ring, Function.comp_def]

/-- The frames in front of the first one that is not referenced are passed over. -/
theorem next_append_cons (mark : Bool) {marked rest : List (FrameNumber × Bool)} {f : FrameNumber}
    (h : ∀ x ∈ marked, x.2 = true) : next mark (marked ++ (f, false) :: rest) =
      some (f, rest ++ (cleared marked ++ [(f, mark)])) := by
  simp [next, List.dropWhile_append_of_pos h, List.takeWhile_append_of_pos h]

/-- If every frame is referenced, the first of them is chosen. -/
theorem next_cons_of_marked (mark : Bool) {x : FrameNumber × Bool} {rest : List (FrameNumber × Bool)}
    (h : ∀ y ∈ x :: rest, y.2 = true) : next mark (x :: rest) =
      some (x.1, cleared rest ++ [(x.1, mark)]) := by
  rw [next, List.dropWhile_eq_nil_iff.2 h, List.head?_cons, Option.map_some, List.tail_cons]

/-- Records after a sweep that took the marks of `fs`, with a new record for `f`. -/
theorem referenced_set {d d₁ : Directory O} {fs : List FrameNumber} (h : Unmarks d d₁ fs)
    {f : FrameNumber} (hf : f.toNat < d.size) (j : FrameInfo O) (g : FrameNumber) :
    (d₁.set f j).referenced g =
      if g = f then j.referenced else if g ∈ fs then false else d.referenced g := by
  rw [referenced, get?_set]
  by_cases hg : g = f
  · have hsome : ∃ i, d₁.get? f = some i := by
      rw [← h.1] at hf
      exact ⟨_, Array.getElem?_eq_getElem hf⟩
    obtain ⟨i, hi⟩ := hsome
    rw [if_pos hg, if_pos hg, hi]
    rfl
  · rw [if_neg hg, if_neg hg, h.2 g]
    split
    · cases d.get? g <;> rfl
    · rfl

/-- The ring once the sweep has chosen `f` and its frame has a new record. -/
theorem ring_set {hand : Nat} {d d₁ : Directory O} {before behind swept : List FrameNumber}
    {f : FrameNumber} (hsize : d.size ≤ wordBound) (hturn : turn hand d.size = before ++ f :: behind)
    (h : Unmarks d d₁ swept) (j : FrameInfo O) :
    ring ((f.toNat + 1) % d.size) (d₁.set f j) =
      (behind ++ before).map (fun g => (g, if g ∈ swept then false else d.referenced g)) ++
        [(f, j.referenced)] := by
  have hf : f.toNat < d.size := toNat_lt_of_mem_turn hsize (hturn ▸ by simp : f ∈ turn hand d.size)
  have hnodup := nodup_turn hsize hand
  rw [hturn, List.nodup_middle, List.nodup_cons, List.mem_append] at hnodup
  rw [ring, size_set, h.1, turn_past hsize hturn, ← List.append_assoc, List.map_append]
  refine congrArg₂ _ (List.map_congr_left fun g hg => ?_) ?_
  · have hne : g ≠ f := fun heq => hnodup.1 (by rw [← heq]; simpa [or_comm] using hg)
    rw [referenced_set h hf, if_neg hne]
  · rw [List.map_singleton, referenced_set h hf, if_pos rfl]

/-- A sweep splits the turn in front of the first frame that is not referenced, if there is one. -/
theorem split_marked (d : Directory O) (fs : List FrameNumber) :
    (∀ g ∈ fs, d.referenced g = true) ∨ ∃ before f behind, fs = before ++ f :: behind ∧
      (∀ g ∈ before, d.referenced g = true) ∧ d.referenced f = false := by
  induction fs with
  | nil => simp
  | cons g fs ih =>
    cases hmark : d.referenced g with
    | false => exact .inr ⟨[], g, fs, rfl, by simp, hmark⟩
    | true =>
      obtain h | ⟨before, f, behind, rfl, h, hf⟩ := ih
      · exact .inl (by simpa [hmark] using h)
      · exact .inr ⟨g :: before, f, behind, rfl, by simpa [hmark] using h, hf⟩

/-- **The clock is a queue.** When every frame can be evicted, the victim is the next one of the ring,
and once its frame has the record `j`, the ring is as `next` says. -/
theorem next_ring {c c' : Clock} {d d' : Directory O} {f : FrameNumber} (hsize : d.size ≤ wordBound)
    (hall : ∀ g : FrameNumber, g.toNat < d.size → d.Evictable g)
    (h : c.selectVictim d = (some f, c', d')) (j : FrameInfo O) :
    next j.referenced (ring c.hand d) = some (f, ring c'.hand (d'.set f j)) := by
  have hevictable : ∀ g ∈ turn c.hand d.size, d.Evictable g :=
    fun g hg => hall g (toNat_lt_of_mem_turn hsize hg)
  have hnodup := nodup_turn hsize c.hand
  unfold selectVictim at h
  obtain hmarked | ⟨before, g, behind, hturn, hmarked, hg⟩ := split_marked d (turn c.hand d.size)
  · -- The sweep comes round, and the first frame of all is chosen.
    obtain ⟨d₁, hunmarks, hsweep⟩ := sweep_referenced (turn c.hand d.size) [] none d
      (fun g hg => ⟨hevictable g hg, hmarked g hg⟩) hnodup
    rw [List.append_nil] at hsweep
    rw [hsweep] at h
    cases hturn : turn c.hand d.size with
    | nil =>
      rw [hturn] at h
      cases h
    | cons g behind =>
      rw [hturn] at h hmarked hunmarks
      cases h
      rw [@ring_set _ _ _ _ [] _ _ _ hsize hturn hunmarks, ring, hturn, List.map_cons,
        next_cons_of_marked _ (by simpa using hmarked), List.append_nil]
      simp only [cleared, List.map_map]
      congr 3
      refine List.map_congr_left fun x hx => ?_
      simp [hx]
  · rw [hturn] at hevictable hnodup
    have hbefore := List.nodup_append.mp hnodup
    obtain ⟨d₁, hunmarks, hsweep⟩ := sweep_referenced before (g :: behind) none d
      (fun x hx => ⟨hevictable x (List.mem_append_left _ hx), hmarked x hx⟩) hbefore.1
    have hnotin : ∀ x ∈ g :: behind, x ∉ before := fun x hx hx' => hbefore.2.2 x hx' x hx rfl
    have hget := hunmarks.2 g
    rw [if_neg (hnotin g List.mem_cons_self)] at hget
    have hg₁ : d₁.Evictable g ∧ d₁.referenced g = false := by
      rw [Evictable, referenced, hget]
      exact ⟨hevictable g (by simp), hg⟩
    rw [hturn, hsweep, sweep_unreferenced hg₁.1 hg₁.2] at h
    cases h
    rw [ring_set hsize hturn hunmarks, ring, hturn, List.map_append, List.map_cons, hg,
      next_append_cons _ (by simpa using hmarked), List.map_append, List.append_assoc]
    simp only [cleared, List.map_map]
    congr 3
    · refine List.map_congr_left fun x hx => ?_
      rw [if_neg (hnotin x (List.mem_cons_of_mem _ hx))]
    · congr 1
      refine List.map_congr_left fun x hx => ?_
      simp [hx]

/-! ## First in, first out -/

/-- In a ring in order, the frames that are not referenced come first. Without `mark`, which new pages
get, no frame is referenced. -/
structure InOrder (mark : Bool) (r : List (FrameNumber × Bool)) : Prop where
  order : r.Pairwise fun x y => x.2 = true → y.2 = true
  marks : ∀ x ∈ r, x.2 = true → mark = true

theorem inOrder_map (mark : Bool) (fs : List FrameNumber) :
    InOrder mark (fs.map fun f => (f, mark)) where
  order := List.pairwise_map.mpr (List.pairwise_of_forall fun _ _ h => h)
  marks := by simp

/-- The frame at the back may have the mark that new pages get. -/
theorem InOrder.append {mark : Bool} {r : List (FrameNumber × Bool)} (h : InOrder mark r)
    (f : FrameNumber) : InOrder mark (r ++ [(f, mark)]) where
  order := by
    refine List.pairwise_append.mpr ⟨h.order, List.pairwise_singleton .., fun x hx y hy hmark => ?_⟩
    rw [List.mem_singleton.mp hy]
    exact h.marks x hx hmark
  marks x hx hmark := by
    obtain hx | hx := List.mem_append.mp hx
    · exact h.marks x hx hmark
    · rw [List.mem_singleton.mp hx] at hmark
      exact hmark

theorem inOrder_cleared (mark : Bool) (r : List (FrameNumber × Bool)) :
    InOrder mark (cleared r) where
  order := List.pairwise_map.mpr (List.pairwise_of_forall fun _ _ h => h)
  marks x hx hmark := by
    obtain ⟨y, -, rfl⟩ := List.mem_map.mp hx
    cases hmark

/-- **The victim is the first of a ring in order**, which is in order again. Whether the sweep finds it
at once or comes round makes no difference. -/
theorem InOrder.next {mark : Bool} {x : FrameNumber × Bool} {rest : List (FrameNumber × Bool)}
    (h : InOrder mark (x :: rest)) : ∃ rest', next mark (x :: rest) =
      some (x.1, rest' ++ [(x.1, mark)]) ∧ rest'.map Prod.fst = rest.map Prod.fst ∧
      InOrder mark (rest' ++ [(x.1, mark)]) := by
  obtain ⟨f, marked⟩ := x
  obtain ⟨hfirst, hrest⟩ := List.pairwise_cons.mp h.order
  cases marked with
  | false =>
    have hinOrder : InOrder mark rest := ⟨hrest, fun y hy => h.marks y (List.mem_cons_of_mem _ hy)⟩
    exact ⟨rest, @next_append_cons mark [] rest f (by simp), rfl, hinOrder.append f⟩
  | true =>
    have hmarked : ∀ y ∈ (f, true) :: rest, y.2 = true :=
      List.forall_mem_cons.mpr ⟨rfl, fun y hy => hfirst y hy rfl⟩
    exact ⟨cleared rest, next_cons_of_marked mark hmarked, by simp [cleared, Function.comp_def],
      (inOrder_cleared mark rest).append f⟩

end Clock

end DemandPaging
