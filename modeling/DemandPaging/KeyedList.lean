/-!
# Lists of keyed values

Registers and stores keep their values in a list with their keys, and `List.lookup` finds them.
-/

namespace DemandPaging.KeyedList

variable {κ α : Type} [BEq κ] [LawfulBEq κ]

/-- Keys that are kept are found as before, and the others are not found any more. -/
theorem lookup_filter (keep : κ → Bool) (k : κ) (l : List (κ × α)) :
    (l.filter fun x => keep x.1).lookup k = if keep k then l.lookup k else none := by
  induction l with
  | nil => simp
  | cons x l ih =>
    obtain ⟨a, b⟩ := x
    by_cases hk : k = a
    · subst hk
      cases ha : keep k <;> simp [ha, ih]
    · have hne : (k == a) = false := beq_eq_false_iff_ne.2 hk
      cases ha : keep a <;> simp [ha, List.lookup_cons, ih, hne]

end DemandPaging.KeyedList
