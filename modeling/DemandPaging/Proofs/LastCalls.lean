/-!
# The last call that matters

What a component holds is often told by the last of its calls that has to do with the matter: one
that brought it about, and behind it none that undid it. One more call either brings it about itself or
leaves it as it was.
-/

namespace DemandPaging

/-- The last call brings it about, or it was so before and the last call does not undo it. -/
theorem exists_since_append {α : Type} {Begins : List α → α → Prop} {Ends : α → Prop}
    {past : List α} {last : α} :
    (∃ before x behind, past ++ [last] = before ++ x :: behind ∧ Begins before x ∧
        ∀ y ∈ behind, ¬ Ends y) ↔
      Begins past last ∨
        (∃ before x behind, past = before ++ x :: behind ∧ Begins before x ∧
          ∀ y ∈ behind, ¬ Ends y) ∧ ¬ Ends last := by
  constructor
  · rintro ⟨before, x, behind, hsplit, hx, hbehind⟩
    -- the call that brought it about is the last one, or there is something behind it
    rcases List.eq_nil_or_concat behind with rfl | ⟨rest, y, rfl⟩
    · obtain ⟨rfl, hlast⟩ := List.append_inj' hsplit rfl
      cases hlast
      exact Or.inl hx
    · rw [List.concat_eq_append, ← List.cons_append, ← List.append_assoc] at hsplit
      obtain ⟨rfl, hlast⟩ := List.append_inj' hsplit rfl
      cases hlast
      rw [List.concat_eq_append] at hbehind
      exact Or.inr ⟨⟨before, x, rest, rfl, hx, fun z hz => hbehind z (List.mem_append_left _ hz)⟩,
        hbehind last (List.mem_append_right _ (List.mem_singleton_self last))⟩
  · rintro (hlast | ⟨⟨before, x, behind, rfl, hx, hbehind⟩, hstays⟩)
    · exact ⟨past, last, [], rfl, hlast, fun _ hx => absurd hx List.not_mem_nil⟩
    · refine ⟨before, x, behind ++ [last], by simp, hx, fun z hz => ?_⟩
      cases List.mem_append.mp hz with
      | inl hz => exact hbehind z hz
      | inr hz => exact List.mem_singleton.mp hz ▸ hstays

/-- Nothing was brought about before the first call. -/
theorem not_exists_since_nil {α : Type} {Begins : List α → α → Prop} {Ends : α → Prop} :
    ¬ ∃ before x behind, ([] : List α) = before ++ x :: behind ∧ Begins before x ∧
      ∀ y ∈ behind, ¬ Ends y := by
  rintro ⟨before, x, behind, hsplit, -⟩
  simp at hsplit

end DemandPaging
