import DemandPaging.Violation

/-!
# The free list

Free frames form a stack: the frame released last is handed out first. Beside the stack stands one
mark per frame that tells whether the frame is on it, so that membership needs no search and a
frame released twice is noticed.
-/

namespace DemandPaging

/-- The stack of free frames, next to hand out first, and the marks of the frames on it. -/
structure FreeList where
  stack : List FrameNumber
  listed : Array Bool
  deriving DecidableEq

namespace FreeList

/-- All of `n` frames free, the lowest number on top. -/
def full (n : Nat) : FreeList :=
  ⟨(List.range n).map FrameNumber.ofNat, Array.replicate n true⟩

/-- All of `n` frames free, if that many frames can be numbered. -/
def full? (n : Nat) : Option FreeList := if n ≤ wordBound then some (full n) else none

def size (l : FreeList) : Nat := l.stack.length

def isEmpty (l : FreeList) : Bool := l.stack.isEmpty

/-- Is the frame marked as free? -/
def contains (l : FreeList) (f : FrameNumber) : Bool := l.listed[f.toNat]?.getD false

/-- Take the top frame. -/
def pop? (l : FreeList) : Option (FrameNumber × FreeList) :=
  match l.stack with
  | [] => none
  | f :: fs => some (f, ⟨fs, l.listed.setIfInBounds f.toNat false⟩)

/-- Put a frame on top. The frame must exist and must not be on the stack. -/
def push (l : FreeList) (f : FrameNumber) : Except Violation FreeList :=
  match l.listed[f.toNat]? with
  | none => .error .outOfBounds
  | some true => .error (.releasedTwice f)
  | some false => .ok ⟨f :: l.stack, l.listed.setIfInBounds f.toNat true⟩

/-- The frames on the list, the one handed out next first. -/
def toList (l : FreeList) : List FrameNumber := l.stack

variable {l l' : FreeList} {f : FrameNumber} {n : Nat}

/-! ## The stack -/

@[simp] theorem toList_full (n : Nat) :
    (full n).toList = (List.range n).map FrameNumber.ofNat := rfl

theorem mem_toList_full (hn : n ≤ wordBound) : f ∈ (full n).toList ↔ f.toNat < n := by
  rw [toList_full, List.mem_map]
  constructor
  · rintro ⟨k, hk, rfl⟩
    rw [List.mem_range] at hk
    rwa [FrameNumber.toNat_ofNat (Nat.lt_of_lt_of_le hk hn)]
  · exact fun hf => ⟨f.toNat, List.mem_range.mpr hf, f.ofNat_toNat⟩

/-- The frames of a full list come in the order of their numbers. -/
theorem ascending_full (hn : n ≤ wordBound) :
    (full n).toList.Pairwise fun f g => f.toNat < g.toNat := by
  rw [toList_full, List.pairwise_map]
  refine List.pairwise_lt_range.imp_of_mem fun {i j} hi hj hij => ?_
  rwa [FrameNumber.toNat_ofNat (Nat.lt_of_lt_of_le (List.mem_range.mp hi) hn),
    FrameNumber.toNat_ofNat (Nat.lt_of_lt_of_le (List.mem_range.mp hj) hn)]

theorem nodup_full (hn : n ≤ wordBound) : (full n).toList.Nodup := by
  refine List.nodup_iff_pairwise_ne.mpr ((ascending_full hn).imp fun hlt heq => ?_)
  rw [heq] at hlt
  exact Nat.lt_irrefl _ hlt

theorem toList_of_pop? (h : l.pop? = some (f, l')) : l.toList = f :: l'.toList := by
  unfold pop? at h
  split at h
  · cases h
  · cases h
    assumption

theorem pop?_eq_none_iff : l.pop? = none ↔ l.toList = [] := by
  unfold pop? toList
  split <;> simp [*]

theorem toList_of_push (h : l.push f = .ok l') : l'.toList = f :: l.toList := by
  unfold push at h
  split at h <;> cases h
  rfl

/-! ## The marks -/

theorem contains_full (n : Nat) (f : FrameNumber) : (full n).contains f = decide (f.toNat < n) := by
  simp only [full, contains, Array.getElem?_replicate]
  split <;> simp [*]

/-- Only the frame that was taken loses its mark. -/
theorem contains_of_pop? (h : l.pop? = some (f, l')) (g : FrameNumber) :
    l'.contains g = (decide (g ≠ f) && l.contains g) := by
  unfold pop? at h
  split at h
  · cases h
  · cases h
    by_cases hg : g = f
    · subst hg
      simp only [contains, Array.getElem?_setIfInBounds_self, ne_eq, not_true_eq_false,
        decide_false, Bool.false_and]
      split <;> rfl
    · have hne : f.toNat ≠ g.toNat := fun he => hg (FrameNumber.toNat_inj.mp he).symm
      simp [contains, Array.getElem?_setIfInBounds_ne hne, hg]

/-- Only the frame that was put on top gets a mark. -/
theorem contains_of_push (h : l.push f = .ok l') (g : FrameNumber) :
    l'.contains g = (decide (g = f) || l.contains g) := by
  unfold push at h
  split at h <;> cases h
  next hmark =>
    have hlt := (Array.getElem?_eq_some_iff.mp hmark).1
    by_cases hg : g = f
    · subst hg
      simp [contains, hlt]
    · have hne : f.toNat ≠ g.toNat := fun he => hg (FrameNumber.toNat_inj.mp he).symm
      simp [contains, Array.getElem?_setIfInBounds_ne hne, hg]

theorem size_listed_of_pop? (h : l.pop? = some (f, l')) : l'.listed.size = l.listed.size := by
  unfold pop? at h
  split at h <;> cases h
  exact Array.size_setIfInBounds

theorem size_listed_of_push (h : l.push f = .ok l') : l'.listed.size = l.listed.size := by
  unfold push at h
  split at h <;> cases h
  exact Array.size_setIfInBounds

end FreeList

end DemandPaging
