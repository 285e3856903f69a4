import DemandPaging.Proofs.Accesses

/-!
# Frames drawn one after the other

Pages that are brought in one after the other, while no frame is pinned, get the frames of a list that
is known beforehand (`FrameTable.draws`): first the free ones, then those that the clock takes from
their pages. A frame may be in the list twice. The second page that gets it then takes the place of the
first.

If all frames are in use, and a page that was just brought in counts as referenced, the clock takes every
other page first (`Clock.nodup_victims`).
-/

namespace DemandPaging

namespace Clock

/-- The victims of `k` choices, if every frame has the mark `mark` with its new page. -/
def victims (mark : Bool) : Nat → List (FrameNumber × Bool) → List FrameNumber
  | 0, _ => []
  | k + 1, r =>
    match next mark r with
    | none => []
    | some (f, r') => f :: victims mark k r'

theorem victims_succ {mark : Bool} {r r' : List (FrameNumber × Bool)} {f : FrameNumber}
    (h : next mark r = some (f, r')) (k : Nat) :
    victims mark (k + 1) r = f :: victims mark k r' := by
  rw [victims, h]

/-! ## Every other page first -/

section Spares

variable {own : List FrameNumber} {r r' : List (FrameNumber × Bool)} {f : FrameNumber}

/-- What the hand leaves behind when it takes frames for new pages, which count as referenced. The
frames in `own` have new pages. -/
inductive Spares (own : List FrameNumber) : List (FrameNumber × Bool) → Prop
  /-- The hand has not gone round: no frame ahead has a new page, and of those behind the hand the ones
  that have are marked. -/
  | first {ahead behind : List (FrameNumber × Bool)} (others : ∀ x ∈ ahead, x.1 ∉ own)
      (marks : ∀ x ∈ behind, x.2 = true ↔ x.1 ∈ own) : Spares own (ahead ++ behind)
  /-- The hand goes round again: of the frames ahead the ones with new pages are marked, and all those
  behind the hand have new pages. -/
  | again {ahead behind : List (FrameNumber × Bool)} (marks : ∀ x ∈ ahead, x.2 = true ↔ x.1 ∈ own)
      (taken : ∀ x ∈ behind, x.1 ∈ own) : Spares own (ahead ++ behind)

/-- A ring splits in front of the first frame that is not referenced, if there is one. -/
theorem split_ring (r : List (FrameNumber × Bool)) : (∀ x ∈ r, x.2 = true) ∨
    ∃ marked f rest, r = marked ++ (f, false) :: rest ∧ ∀ x ∈ marked, x.2 = true := by
  induction r with
  | nil => exact .inl nofun
  | cons x r ih =>
    obtain ⟨g, marked⟩ := x
    cases marked with
    | false => exact .inr ⟨[], g, r, rfl, nofun⟩
    | true =>
      obtain hall | ⟨marked, f, rest, rfl, hmarked⟩ := ih
      · exact .inl (List.forall_mem_cons.mpr ⟨rfl, hall⟩)
      · exact .inr ⟨(g, true) :: marked, f, rest, rfl, List.forall_mem_cons.mpr ⟨rfl, hmarked⟩⟩

theorem cleared_append (r s : List (FrameNumber × Bool)) :
    cleared (r ++ s) = cleared r ++ cleared s := List.map_append

theorem mem_cleared {x : FrameNumber × Bool} (h : x ∈ cleared r) :
    x.2 = false ∧ ∃ y ∈ r, y.1 = x.1 := by
  obtain ⟨y, hy, rfl⟩ := List.mem_map.mp h
  exact ⟨rfl, y, hy, rfl⟩

/-- A choice leaves the frames of the ring the same. -/
theorem perm_next {mark : Bool} (h : next mark r = some (f, r')) :
    (r'.map Prod.fst).Perm (r.map Prod.fst) := by
  have hcleared : ∀ l : List (FrameNumber × Bool), (cleared l).map Prod.fst = l.map Prod.fst :=
    fun l => by simp [cleared, Function.comp_def]
  obtain hall | ⟨marked, g, rest, rfl, hmarked⟩ := split_ring r
  · cases r with
    | nil => cases h
    | cons x rest =>
      rw [next_cons_of_marked mark hall] at h
      cases h
      rw [List.map_append, hcleared, List.map_singleton, List.map_cons]
      exact List.perm_append_singleton ..
  · rw [next_append_cons mark hmarked] at h
    cases h
    simp only [List.map_append, hcleared, List.map_cons, List.map_nil]
    exact (List.perm_append_comm.trans (by simp)).trans List.perm_middle.symm

/-- No other place of the ring has the frame. -/
theorem fst_ne {marked rest : List (FrameNumber × Bool)} {b : Bool}
    (h : ((marked ++ (f, b) :: rest).map Prod.fst).Nodup) {x : FrameNumber × Bool}
    (hx : x ∈ marked ++ rest) : x.1 ≠ f := by
  rw [List.map_append, List.map_cons, List.nodup_middle, List.nodup_cons, ← List.map_append] at h
  intro heq
  exact h.1 (List.mem_map.mpr ⟨x, hx, heq⟩)

/-- A frame other than the new one is marked if it has a new page. -/
theorem marks_cons {x : FrameNumber × Bool} (hne : x.1 ≠ f) (h : x.2 = true ↔ x.1 ∈ own) :
    x.2 = true ↔ x.1 ∈ f :: own := by
  rw [h, List.mem_cons, or_iff_right hne]

/-- Frames without new pages lose their marks when the hand passes them. -/
theorem marks_cleared {ahead : List (FrameNumber × Bool)} (hne : ∀ x ∈ ahead, x.1 ≠ f)
    (h : ∀ x ∈ ahead, x.1 ∉ own) (x : FrameNumber × Bool) (hx : x ∈ cleared ahead) :
    x.2 = true ↔ x.1 ∈ f :: own := by
  obtain ⟨hmark, y, hy, heq⟩ := mem_cleared hx
  rw [hmark, ← heq, List.mem_cons]
  simp [hne y hy, h y hy]

theorem taken_cleared {behind : List (FrameNumber × Bool)} (h : ∀ x ∈ behind, x.1 ∈ own)
    (x : FrameNumber × Bool) (hx : x ∈ cleared behind ++ [(f, true)]) : x.1 ∈ f :: own := by
  obtain hx | hx := List.mem_append.mp hx
  · obtain ⟨-, y, hy, heq⟩ := mem_cleared hx
    exact List.mem_cons_of_mem _ (heq ▸ h y hy)
  · rw [List.mem_singleton.mp hx]
    exact List.mem_cons_self

/-- **The hand takes a frame that has no new page**, as long as there is one. -/
theorem Spares.next (h : Spares own r) (hnodup : (r.map Prod.fst).Nodup)
    (hother : ∃ x ∈ r, x.1 ∉ own) :
    ∃ f r', next true r = some (f, r') ∧ f ∉ own ∧ Spares (f :: own) r' := by
  cases h with
  | @first ahead behind others marks =>
    obtain hall | ⟨marked, f, rest, rfl, hmarked⟩ := split_ring ahead
    · obtain hall' | ⟨marked, f, rest, rfl, hmarked⟩ := split_ring behind
      · -- The sweep comes round, and the first frame ahead is taken.
        cases ahead with
        | nil =>
          obtain ⟨x, hx, hx'⟩ := hother
          exact absurd ((marks x hx).mp (hall' x hx)) hx'
        | cons x ahead =>
          have hne : ∀ y ∈ ahead, y.1 ≠ x.1 := fun y hy =>
            @fst_ne x.1 [] (ahead ++ behind) x.2 hnodup y (List.mem_append_left behind hy)
          refine ⟨x.1, _, next_cons_of_marked true (List.forall_mem_append.mpr ⟨hall, hall'⟩),
            others x List.mem_cons_self, ?_⟩
          rw [List.append_eq, cleared_append, List.append_assoc]
          exact .again (marks_cleared hne fun y hy => others y (List.mem_cons_of_mem _ hy))
            (taken_cleared fun y hy => (marks y hy).mp (hall' y hy))
      · -- The hand passes all the frames ahead.
        rw [← List.append_assoc] at hnodup ⊢
        have hf : f ∉ own := fun hmem => nomatch (marks (f, false) (by simp)).mpr hmem
        refine ⟨f, _, next_append_cons true (List.forall_mem_append.mpr ⟨hall, hmarked⟩), hf, ?_⟩
        rw [cleared_append, List.append_assoc, ← List.append_assoc]
        refine .again (List.forall_mem_append.mpr ⟨fun x hx => ?_, ?_⟩) (taken_cleared fun x hx => ?_)
        · exact marks_cons (fst_ne hnodup (List.mem_append_right _ hx)) (marks x (by simp [hx]))
        · exact marks_cleared (fun x hx => fst_ne hnodup (by simp [hx])) others
        · exact (marks x (by simp [hx])).mp (hmarked x hx)
    · rw [List.append_assoc, List.cons_append] at hnodup ⊢
      refine ⟨f, _, next_append_cons true hmarked, others (f, false) (by simp), ?_⟩
      rw [List.append_assoc]
      have hne : ∀ x ∈ marked ++ (rest ++ behind), x.1 ≠ f := fun x hx => fst_ne hnodup hx
      refine .first (fun x hx => ?_) (List.forall_mem_append.mpr ⟨fun x hx => ?_, ?_⟩)
      · exact List.not_mem_cons_of_ne_of_not_mem (hne x (by simp [hx])) (others x (by simp [hx]))
      · exact marks_cons (hne x (by simp [hx])) (marks x hx)
      · refine List.forall_mem_append.mpr ⟨marks_cleared (fun x hx => hne x (by simp [hx]))
          fun x hx => others x (by simp [hx]), fun x hx => ?_⟩
        rw [List.mem_singleton.mp hx]
        simp
  | @again ahead behind marks taken =>
    obtain hall | ⟨marked, f, rest, rfl, hmarked⟩ := split_ring ahead
    · obtain ⟨x, hx, hx'⟩ := hother
      obtain hx | hx := List.mem_append.mp hx
      · exact absurd ((marks x hx).mp (hall x hx)) hx'
      · exact absurd (taken x hx) hx'
    · have hf : f ∉ own := fun hmem => nomatch (marks (f, false) (by simp)).mpr hmem
      rw [List.append_assoc, List.cons_append] at hnodup ⊢
      refine ⟨f, _, next_append_cons true hmarked, hf, ?_⟩
      rw [List.append_assoc]
      refine .again (fun x hx => ?_) (List.forall_mem_append.mpr ⟨fun x hx => ?_,
        taken_cleared fun x hx => ?_⟩)
      · exact marks_cons (fst_ne hnodup (by simp [hx])) (marks x (by simp [hx]))
      · exact List.mem_cons_of_mem _ (taken x hx)
      · exact (marks x (by simp [hx])).mp (hmarked x hx)

/-- **The frames of new pages are distinct**, as long as there are other frames. -/
theorem Spares.victims (h : Spares own r) (hnodup : (r.map Prod.fst).Nodup) {k : Nat}
    (hk : own.length + k ≤ r.length) :
    (victims true k r).Nodup ∧ ∀ f ∈ victims true k r, f ∉ own := by
  induction k generalizing own r with
  | zero => exact ⟨List.nodup_nil, nofun⟩
  | succ k ih =>
    have hother : ∃ x ∈ r, x.1 ∉ own := by
      by_contra hall
      push Not at hall
      have hsub : r.map Prod.fst ⊆ own := fun f hf => by
        obtain ⟨x, hx, rfl⟩ := List.mem_map.mp hf
        exact hall x hx
      have hle := (List.subperm_of_subset hnodup hsub).length_le
      rw [List.length_map] at hle
      omega
    obtain ⟨f, r', hnext, hf, hspares⟩ := h.next hnodup hother
    have hperm := perm_next hnext
    have hlength := hperm.length_eq
    rw [List.length_map, List.length_map] at hlength
    obtain ⟨hnodup', hout⟩ := ih hspares (hperm.nodup_iff.mpr hnodup)
      (by rw [List.length_cons]; omega)
    rw [victims_succ hnext]
    refine ⟨List.nodup_cons.mpr ⟨fun hmem => hout f hmem List.mem_cons_self, hnodup'⟩, ?_⟩
    exact List.forall_mem_cons.mpr ⟨hf, fun g hg hmem => hout g hg (List.mem_cons_of_mem _ hmem)⟩

end Spares

end Clock

namespace FrameTable

variable {O : Type}

/-- The ring as it is when all free frames have been handed out, to pages with the mark `mark`. -/
def filledRing (t : FrameTable O) (mark : Bool) : List (FrameNumber × Bool) :=
  (Clock.turn t.clock.hand t.directory.size).map fun f =>
    (f, if f ∈ t.free.stack then mark else t.directory.referenced f)

/-- The frames that `k` pages get which are brought in one after the other. -/
def draws (t : FrameTable O) (mark : Bool) (k : Nat) : List FrameNumber :=
  t.free.stack.take k ++ Clock.victims mark (k - t.free.stack.length) (t.filledRing mark)

theorem filledRing_of_nil {t : FrameTable O} (h : t.free.stack = []) (mark : Bool) :
    t.filledRing mark = Clock.ring t.clock.hand t.directory := by
  simp [filledRing, Clock.ring, h]

/-- As long as there are free frames, they are handed out. -/
theorem draws_of_le {t : FrameTable O} {k : Nat} (h : k ≤ t.free.stack.length) (mark : Bool) :
    t.draws mark k = t.free.stack.take k := by
  rw [draws, Nat.sub_eq_zero_of_le h, Clock.victims, List.append_nil]

/-- Of an idle pool without free frames every frame can be evicted. -/
theorem evictable_of_nil {t : FrameTable O} (hvalid : t.Valid) (hstack : t.free.stack = [])
    (hidle : ∀ f i, t.info? f = some i → i.pins = 0) {g : FrameNumber}
    (hg : g.toNat < t.directory.size) : t.directory.Evictable g := by
  have hi : t.info? g = some t.directory.entries[g.toNat] := Array.getElem?_eq_getElem hg
  refine ⟨_, hi, fun howner => ?_, hidle g _ hi⟩
  have hmem := (hvalid.mem_stack g).mpr ⟨_, hi, howner⟩
  rw [hstack] at hmem
  exact List.not_mem_nil hmem

/-- Free frames are distinct. -/
theorem nodup_draws_of_le {t : FrameTable O} (hvalid : t.Valid) {k : Nat}
    (h : k ≤ t.free.stack.length) (mark : Bool) : (t.draws mark k).Nodup := by
  rw [draws_of_le h]
  exact hvalid.nodup.sublist (List.take_sublist ..)

/-- **The frames of a full pool are drawn once each**, if new pages count as referenced. -/
theorem nodup_draws_of_nil {t : FrameTable O} (hvalid : t.Valid) (h : t.free.stack = []) {k : Nat}
    (hk : k ≤ t.directory.size) : (t.draws true k).Nodup := by
  rw [draws, h, List.take_nil, List.nil_append, List.length_nil, Nat.sub_zero, filledRing_of_nil h]
  have hturn := Clock.map_fst_ring t.clock.hand t.directory
  have hlength := congrArg List.length hturn
  rw [List.length_map, Clock.length_turn] at hlength
  have hspares : Clock.Spares [] (Clock.ring t.clock.hand t.directory ++ []) :=
    .first (fun _ _ => List.not_mem_nil) nofun
  rw [List.append_nil] at hspares
  refine (hspares.victims ?_ (by rw [List.length_nil]; omega)).1
  rw [hturn]
  exact Clock.nodup_turn hvalid.size_le _

/-- **The first frame of the list is the one that the next page gets**, and the list of the pool after
that is the rest. -/
theorem draws_succ {t t' : FrameTable ProcessId} {f : FrameNumber} {j : FrameInfo ProcessId}
    (hvalid : t.Valid) (hidle : ∀ f i, t.info? f = some i → i.pins = 0)
    (h : Machine.PoolPlaced t t' f j) (k : Nat) :
    t.draws j.referenced (k + 1) = f :: t'.draws j.referenced k := by
  cases h with
  | @free fs stack stack' directory clock =>
    have hnodup := hvalid.nodup
    rw [stack, List.nodup_cons] at hnodup
    have hmem : f ∈ t.free.stack := stack ▸ List.mem_cons_self
    obtain ⟨i, hi, -⟩ := (hvalid.mem_stack f).mp hmem
    have href : ∀ g, t'.directory.referenced g =
        if g = f then j.referenced else t.directory.referenced g := fun g => by
      rw [directory, Directory.referenced, Directory.get?_set]
      split
      · next hg =>
        rw [show t.directory.get? f = some i from hi]
        rfl
      · rfl
    have hring : t'.filledRing j.referenced = t.filledRing j.referenced := by
      rw [filledRing, filledRing, clock, directory, Directory.size_set]
      refine List.map_congr_left fun g _ => ?_
      rw [← directory, href, stack, stack']
      by_cases hg : g = f
      · rw [hg, if_neg hnodup.1, if_pos rfl, if_pos List.mem_cons_self]
      · simp only [List.mem_cons, hg, if_false, false_or]
    rw [draws, draws, hring, stack, stack', List.take_succ_cons, List.length_cons,
      Nat.add_sub_add_right, List.cons_append]
  | @evicted u stack stack' victim directory clock =>
    have hclock := clock_selectVictim victim
    have hnext := Clock.next_ring hvalid.size_le
      (fun g hg => evictable_of_nil hvalid stack hidle hg) hclock j
    rw [← directory, ← clock] at hnext
    rw [draws, draws, stack, stack', filledRing_of_nil stack, filledRing_of_nil stack',
      List.take_nil, List.take_nil, List.nil_append, List.nil_append, List.length_nil,
      Nat.sub_zero, Nat.sub_zero]
    exact Clock.victims_succ hnext k

end FrameTable

end DemandPaging
