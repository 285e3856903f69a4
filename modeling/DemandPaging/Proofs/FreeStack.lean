import Mathlib.Data.List.Perm.Subperm
import DemandPaging.Frames.FreeList

/-!
# The stack of free frames and its marks

A free list is valid if its stack holds each marked frame once, and no other. Taking a frame off and
putting one on keep it so.
-/

namespace DemandPaging

namespace FreeList

variable {l l' : FreeList} {f : FrameNumber} {n : Nat}

/-- The stack of a list of `n` frames holds each marked frame once, and no other. -/
structure Valid (n : Nat) (l : FreeList) : Prop where
  size_listed : l.listed.size = n
  nodup : l.toList.Nodup
  listed : ∀ f, l.contains f = true ↔ f ∈ l.toList

namespace Valid

theorem full (hn : n ≤ wordBound) : (full n).Valid n where
  size_listed := Array.size_replicate
  nodup := nodup_full hn
  listed f := by rw [contains_full, decide_eq_true_iff, mem_toList_full hn]

/-- The mark of a frame that exists. -/
theorem getElem?_listed (h : l.Valid n) (hf : f.toNat < n) :
    l.listed[f.toNat]? = some (decide (f ∈ l.toList)) := by
  have hlt : f.toNat < l.listed.size := h.size_listed ▸ hf
  have hlisted := h.listed f
  rw [contains, Array.getElem?_eq_getElem hlt, Option.getD_some] at hlisted
  rw [Array.getElem?_eq_getElem hlt, Option.some.injEq, Bool.eq_iff_iff,
    decide_eq_true_iff, hlisted]

/-- A frame on the list exists. -/
theorem lt_of_mem (h : l.Valid n) (hf : f ∈ l.toList) : f.toNat < n := by
  have hlisted := (h.listed f).mpr hf
  by_contra hge
  rw [contains, Array.getElem?_eq_none (h.size_listed ▸ Nat.le_of_not_lt hge)] at hlisted
  contradiction

/-- As each frame is listed once, no more can be listed than there are. -/
theorem size_le (h : l.Valid n) (hn : n ≤ wordBound) : l.size ≤ n := by
  have hsub : l.toList ⊆ (FreeList.full n).toList := fun f hf =>
    (mem_toList_full hn).mpr (h.lt_of_mem hf)
  have hle := (h.nodup.subperm hsub).length_le
  rwa [toList_full, List.length_map, List.length_range] at hle

/-- A frame cannot be put on the list if it does not exist or is there already. -/
theorem push_eq (h : l.Valid n) (f : FrameNumber) : l.push f =
    if n ≤ f.toNat then .error .outOfBounds
    else if f ∈ l.toList then .error (.releasedTwice f)
    else .ok ⟨f :: l.stack, l.listed.setIfInBounds f.toNat true⟩ := by
  split
  · next hle => simp only [FreeList.push, Array.getElem?_eq_none (h.size_listed ▸ hle)]
  · next hlt =>
    rw [FreeList.push, h.getElem?_listed (Nat.lt_of_not_le hlt)]
    by_cases hf : f ∈ l.toList <;> simp only [hf, decide_true, decide_false, if_true, if_false]

theorem not_mem_of_push (h : l.Valid n) (hpush : l.push f = .ok l') : f ∉ l.toList := by
  rw [h.push_eq] at hpush
  split at hpush
  · cases hpush
  · split at hpush
    · cases hpush
    · assumption

/-- All frames stay on the list but the one that was taken. -/
theorem mem_of_pop? (h : l.Valid n) (hpop : l.pop? = some (f, l')) (g : FrameNumber) :
    g ∈ l'.toList ↔ g ≠ f ∧ g ∈ l.toList := by
  have hnodup := h.nodup
  rw [toList_of_pop? hpop, List.nodup_cons] at hnodup
  rw [toList_of_pop? hpop, List.mem_cons]
  constructor
  · exact fun hg => ⟨fun heq => hnodup.1 (heq ▸ hg), Or.inr hg⟩
  · exact fun hg => hg.2.resolve_left hg.1

theorem pop? (h : l.Valid n) (hpop : l.pop? = some (f, l')) : l'.Valid n := by
  have hnodup := h.nodup
  rw [toList_of_pop? hpop, List.nodup_cons] at hnodup
  refine ⟨(size_listed_of_pop? hpop).trans h.size_listed, hnodup.2, fun g => ?_⟩
  rw [contains_of_pop? hpop, Bool.and_eq_true, decide_eq_true_iff, h.listed, h.mem_of_pop? hpop]

theorem push (h : l.Valid n) (hpush : l.push f = .ok l') : l'.Valid n := by
  have hstack := toList_of_push hpush
  refine ⟨(size_listed_of_push hpush).trans h.size_listed, ?_, fun g => ?_⟩
  · rw [hstack]
    exact List.nodup_cons.mpr ⟨h.not_mem_of_push hpush, h.nodup⟩
  · rw [contains_of_push hpush, Bool.or_eq_true, decide_eq_true_iff, h.listed, hstack,
      List.mem_cons]

end Valid

end FreeList

end DemandPaging
