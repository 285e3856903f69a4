import Mathlib.Algebra.Ring.Nat
import DemandPaging.Image.Layout

/-!
# Which layouts are accepted

Sections are accepted if each of them begins where those before it end (`Layout.Gapless`) and there is
room for stack and arguments behind the last one. Otherwise the first section that begins elsewhere
(`Layout.Misplaced`) is reported, or the pages that are missing. Pages are counted in words of 64 bits,
so whatever the outcome would be, a count that does not fit a word is a violation. A count has no time
to grow as long as sections are in place, since every section begins at a page of 32 bits; it is the
last one before the gap, or before the end, that overflows it.
-/

namespace DemandPaging.Layout

variable {s t : Section} {sections rest : List Section} {next stackPages i : Nat}

/-! ## Gaps -/

/-- The pages of all sections together. -/
def totalPages (sections : List Section) : Nat := (sections.map Section.pages).sum

/-- The pages of the first `i` sections together. -/
def pagesBefore (sections : List Section) (i : Nat) : Nat := totalPages (sections.take i)

/-- Placed from page `next` on, every section begins where those before it end. -/
def Gapless (next : Nat) (sections : List Section) : Prop :=
  ∀ i s, sections[i]? = some s → s.first.toNat = next + pagesBefore sections i

/-- Placed from page `next` on, section number `i` is the first that does not begin where those before
it end. -/
structure Misplaced (next : Nat) (sections : List Section) (i : Nat) (s : Section) : Prop where
  number : sections[i]? = some s
  gap : s.first.toNat ≠ next + pagesBefore sections i
  first : ∀ j t, j < i → sections[j]? = some t → t.first.toNat = next + pagesBefore sections j

theorem totalPages_cons (s : Section) (rest : List Section) :
    totalPages (s :: rest) = s.pages + totalPages rest := List.sum_cons

theorem pagesBefore_succ (s : Section) (rest : List Section) (i : Nat) :
    pagesBefore (s :: rest) (i + 1) = s.pages + pagesBefore rest i := List.sum_cons

/-- The pages behind the first section are as far from where it begins as from where it ends, and its
own pages more. -/
theorem add_pagesBefore_succ (next : Nat) (s : Section) (rest : List Section) (i : Nat) :
    next + pagesBefore (s :: rest) (i + 1) = next + s.pages + pagesBefore rest i := by
  rw [pagesBefore_succ, Nat.add_assoc]

theorem gapless_cons :
    Gapless next (s :: rest) ↔ s.first.toNat = next ∧ Gapless (next + s.pages) rest := by
  constructor
  · refine fun h => ⟨h 0 s rfl, fun i t ht => ?_⟩
    rw [← add_pagesBefore_succ]
    exact h (i + 1) t ht
  · rintro ⟨hfirst, hrest⟩ i t ht
    cases i with
    | zero =>
      cases ht
      exact hfirst
    | succ i =>
      rw [add_pagesBefore_succ]
      exact hrest i t ht

theorem misplaced_zero : Misplaced next (s :: rest) 0 t ↔ s = t ∧ s.first.toNat ≠ next := by
  constructor
  · rintro ⟨hnumber, hgap, -⟩
    cases hnumber
    exact ⟨rfl, hgap⟩
  · rintro ⟨rfl, hgap⟩
    exact ⟨rfl, hgap, fun j _ hj => absurd hj (Nat.not_lt_zero j)⟩

theorem misplaced_succ : Misplaced next (s :: rest) (i + 1) t ↔
    s.first.toNat = next ∧ Misplaced (next + s.pages) rest i t := by
  constructor
  · rintro ⟨hnumber, hgap, hfirst⟩
    refine ⟨hfirst 0 s (Nat.zero_lt_succ i) rfl, hnumber, ?_, fun j u hj hu => ?_⟩
    · rwa [← add_pagesBefore_succ]
    · rw [← add_pagesBefore_succ]
      exact hfirst (j + 1) u (Nat.succ_lt_succ hj) hu
  · rintro ⟨hs, hnumber, hgap, hfirst⟩
    refine ⟨hnumber, by rwa [add_pagesBefore_succ], fun j u hj hu => ?_⟩
    cases j with
    | zero =>
      cases hu
      exact hs
    | succ j =>
      rw [add_pagesBefore_succ]
      exact hfirst j u (Nat.lt_of_succ_lt_succ hj) hu

/-- There is a first gap, or there is none. -/
theorem gapless_or_misplaced (next : Nat) (sections : List Section) :
    Gapless next sections ∨ ∃ i s, Misplaced next sections i s := by
  induction sections generalizing next with
  | nil => exact Or.inl fun _ _ => nofun
  | cons s rest ih =>
    by_cases hs : s.first.toNat = next
    · rcases ih (next + s.pages) with hrest | ⟨i, t, hrest⟩
      · exact Or.inl (gapless_cons.mpr ⟨hs, hrest⟩)
      · exact Or.inr ⟨i + 1, t, misplaced_succ.mpr ⟨hs, hrest⟩⟩
    · exact Or.inr ⟨0, s, misplaced_zero.mpr ⟨rfl, hs⟩⟩

/-! ## Placing sections -/

/-- A count that fits a word, or the violation that it does not. -/
def counted {α : Type} (n : Nat) (x : Except (Stop VmError) α) : Except (Stop VmError) α :=
  if n < sizeBound then x else .error (.violation .overflow)

/-- Sections behind one that is in place. -/
theorem place_cons_of_first (hs : s.first.toNat = next) (index : Nat) :
    place (s :: rest) index next = counted (next + s.pages) (do
      let (ranges, stop) ← place rest (index + 1) (next + s.pages)
      return (⟨next, s.pages⟩ :: ranges, stop)) := by
  rw [place, if_neg (not_not_intro hs), counted]
  by_cases hfits : next + s.pages < sizeBound
  · rw [if_pos hfits, if_neg (Nat.not_le.mpr hfits)]
  · rw [if_neg hfits, if_pos (Nat.not_lt.mp hfits)]

/-- Sections without a gap are placed. -/
theorem place_of_gapless (h : Gapless next sections) (hnext : next < sizeBound) (index : Nat) :
    ∃ ranges, place sections index next =
      counted (next + totalPages sections) (.ok (ranges, next + totalPages sections)) := by
  induction sections generalizing next index with
  | nil => exact ⟨[], (if_pos hnext).symm⟩
  | cons s rest ih =>
    obtain ⟨hs, hrest⟩ := gapless_cons.mp h
    rw [totalPages_cons, ← Nat.add_assoc]
    by_cases hfits : next + s.pages < sizeBound
    · obtain ⟨ranges, hplace⟩ := ih hrest hfits (index + 1)
      refine ⟨⟨next, s.pages⟩ :: ranges, ?_⟩
      rw [place_cons_of_first hs, counted, if_pos hfits, hplace, counted, counted]
      split <;> rfl
    · refine ⟨[], ?_⟩
      rw [place_cons_of_first hs, counted, counted, if_neg hfits, if_neg (by omega)]

/-- The first section that is out of place is reported. -/
theorem place_of_misplaced (h : Misplaced next sections i t) (hnext : next < sizeBound)
    (index : Nat) : place sections index next = counted (next + pagesBefore sections i)
      (.error (.error (.fragmentedExecutable (index + i)
        (.ofNatClamped (next + pagesBefore sections i)) t.first))) := by
  induction sections generalizing next index i with
  | nil => exact nomatch h.number
  | cons s rest ih =>
    cases i with
    | zero =>
      obtain ⟨rfl, hgap⟩ := misplaced_zero.mp h
      rw [place, if_pos hgap]
      exact (if_pos hnext).symm
    | succ i =>
      obtain ⟨hs, hrest⟩ := misplaced_succ.mp h
      rw [place_cons_of_first hs, add_pagesBefore_succ]
      by_cases hfits : next + s.pages < sizeBound
      · have hindex : index + 1 + i = index + (i + 1) := by omega
        rw [counted, if_pos hfits, ih hrest hfits, hindex]
        simp only [counted]
        split <;> rfl
      · rw [counted, counted, if_neg hfits, if_neg (by omega)]

/-! ## Layouts -/

theorem ofSections_of_misplaced (h : Misplaced 0 sections i s) (stackPages : Nat) :
    ofSections sections stackPages = counted (pagesBefore sections i)
      (.error (.error (.fragmentedExecutable i (.ofNatClamped (pagesBefore sections i))
        s.first))) := by
  have hplace := place_of_misplaced h (by decide) 0
  rw [Nat.zero_add, Nat.zero_add] at hplace
  rw [ofSections, hplace]
  simp only [counted]
  split <;> rfl

theorem ofSections_of_gapless (h : Gapless 0 sections) (stackPages : Nat) :
    ∃ l : Layout, l.codePages = totalPages sections ∧
      l.numPages = totalPages sections + stackPages + argumentPages ∧
      ofSections sections stackPages = counted l.numPages
        (if l.numPages ≤ maxProcessPages then .ok l
          else .error (.error (.insufficientMemory l.numPages maxProcessPages))) := by
  obtain ⟨ranges, hplace⟩ := place_of_gapless h (by decide) 0
  rw [Nat.zero_add] at hplace
  refine ⟨⟨ranges, totalPages sections, totalPages sections + stackPages + argumentPages⟩, rfl, rfl,
    ?_⟩
  rw [ofSections, hplace]
  dsimp only
  by_cases hfits : totalPages sections + stackPages + argumentPages < sizeBound
  · rw [counted, counted, if_pos (by omega), if_pos hfits]
    simp only [bind, Except.bind]
    rw [if_neg (Nat.not_le.mpr hfits)]
    by_cases hmax : totalPages sections + stackPages + argumentPages ≤ maxProcessPages
    · rw [if_pos hmax, if_neg (Nat.not_lt.mpr hmax)]
    · rw [if_neg hmax, if_pos (Nat.not_le.mp hmax)]
  · rw [counted, counted, if_neg hfits]
    split
    · simp only [bind, Except.bind]
      rw [if_pos (Nat.not_lt.mp hfits)]
    · rfl

/-- **Which layouts are accepted.** Let `needed` be the pages of all sections, of the stack and of the
arguments together. If every section begins where those before it end, then the layout is accepted
if `needed` pages fit an address space, and what is accepted has these pages; otherwise `needed` pages
are reported to be missing. If there is a gap, then the section behind the first one is reported,
together with the page that it was expected to begin at. All of this holds unless the count of pages
that is compared, behind the last section or in front of the gap, does not fit a word of 64 bits. Then
the overflow of the count is a violation. -/
theorem accepted_exactly (sections : List Section) (stackPages : Nat) :
    let needed := totalPages sections + stackPages + argumentPages
    (Gapless 0 sections ∨ ∃ i s, Misplaced 0 sections i s) ∧
    (Gapless 0 sections →
      (needed ≤ maxProcessPages → ∃ l, ofSections sections stackPages = .ok l ∧
        l.codePages = totalPages sections ∧ l.numPages = needed) ∧
      (maxProcessPages < needed → needed < sizeBound → ofSections sections stackPages =
        .error (.error (.insufficientMemory needed maxProcessPages))) ∧
      (sizeBound ≤ needed → ofSections sections stackPages = .error (.violation .overflow))) ∧
    ∀ i s, Misplaced 0 sections i s →
      (pagesBefore sections i < sizeBound → ofSections sections stackPages =
        .error (.error (.fragmentedExecutable i (.ofNatClamped (pagesBefore sections i)) s.first))) ∧
      (sizeBound ≤ pagesBefore sections i →
        ofSections sections stackPages = .error (.violation .overflow)) := by
  intro needed
  refine ⟨gapless_or_misplaced 0 sections, fun h => ?_, fun i s h => ?_⟩
  · obtain ⟨l, hcode, hnum, hl⟩ := ofSections_of_gapless h stackPages
    have hmax : maxProcessPages < sizeBound := by decide
    have hneeded : l.numPages = needed := hnum
    rw [hneeded, counted] at hl
    refine ⟨fun hle => ⟨l, ?_, hcode, hneeded⟩, fun hlt hfits => ?_, fun hge => ?_⟩
    · rw [hl, if_pos (by omega), if_pos hle]
    · rw [hl, if_pos hfits, if_neg (Nat.not_le.mpr hlt)]
    · rw [hl, if_neg (Nat.not_lt.mpr hge)]
  · rw [ofSections_of_misplaced h, counted]
    exact ⟨fun hfits => if_pos hfits, fun hge => if_neg (Nat.not_lt.mpr hge)⟩

/-- A section of one page, a section with as many pages as a word can count, and a section that
begins somewhere in the second one. -/
def uncountable : List Section :=
  [⟨"text", .ofNat 0, 1, true⟩, ⟨"data", .ofNat 1, sizeBound - 1, false⟩,
    ⟨"late", .ofNat 7, 1, false⟩]

/-- The third section is out of place, but the count overflows in front of it. Behind the first
section alone there is room for all the pages that addresses reach. -/
theorem accepted_exactly_uncountable :
    Misplaced 0 uncountable 2 ⟨"late", .ofNat 7, 1, false⟩ ∧
    ofSections uncountable 1 = .error (.violation .overflow) ∧
    ∃ l, ofSections (uncountable.take 1) (maxProcessPages - 2) = .ok l ∧
      l.numPages = maxProcessPages := by
  have hmisplaced : Misplaced 0 uncountable 2 ⟨"late", .ofNat 7, 1, false⟩ := by
    refine ⟨rfl, by decide, fun j t hj ht => ?_⟩
    match j, hj with
    | 0, _ =>
      cases ht
      rfl
    | 1, _ =>
      cases ht
      rfl
  have hgapless : Gapless 0 (uncountable.take 1) :=
    gapless_cons.mpr ⟨rfl, fun _ _ => nofun⟩
  obtain ⟨l, hl, -, hnum⟩ :=
    ((accepted_exactly (uncountable.take 1) (maxProcessPages - 2)).2.1 hgapless).1 (by decide)
  exact ⟨hmisplaced, ((accepted_exactly uncountable 1).2.2 2 _ hmisplaced).2 (by decide), l, hl,
    hnum.trans rfl⟩

end DemandPaging.Layout
