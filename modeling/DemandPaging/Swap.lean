import DemandPaging.KeyedList
import DemandPaging.Page
import DemandPaging.ProcessId

/-!
# The swap store

Copies of evicted dirty pages, at most one per owner and page. A store may have a limit on the
number of copies, and some pages of it may be unreadable.
-/

namespace DemandPaging

/-- Why a copy was not saved or not read. -/
inductive SwapError where
  | full (capacity : Nat)
  | badFrameSize (size : Nat)
  deriving DecidableEq

namespace SwapError

def message : SwapError → String
  | full capacity => s!"swap store is full ({capacity} slots)"
  | badFrameSize size => s!"frame buffer of {size} bytes is not one page"

instance : ToString SwapError := ⟨message⟩

instance : Inspect SwapError where
  inspect
    | full capacity => Inspect.record "Full" [("capacity", inspect capacity)]
    | badFrameSize size => Inspect.applied "BadFrameSize" [inspect size]

end SwapError

/-- What a saved copy is filed under. -/
abbrev SwapKey := ProcessId × PageNumber

/-- The saved copies, with the counts of the calls that saved or read one. -/
structure Swap where
  slots : List (SwapKey × Page)
  capacity : Option Nat
  stores : Nat
  loads : Nat
  /-- Pages of which no copy can be read, whoever owns them. -/
  unreadable : PageNumber → Bool

namespace Swap

/-- A store without copies that takes at most `capacity` of them. -/
def empty (capacity : Option Nat) : Swap := ⟨[], capacity, 0, 0, fun _ => false⟩

/-- The copy held under `key`. -/
def copy? (s : Swap) (key : SwapKey) : Option Page := s.slots.lookup key

def contains (s : Swap) (key : SwapKey) : Bool := (s.copy? key).isSome

/-- Copies held. -/
def size (s : Swap) : Nat := s.slots.length

def isEmpty (s : Swap) : Bool := s.slots.isEmpty

/-- Hold `p` under `key`, in place of an earlier copy. -/
def insert (s : Swap) (key : SwapKey) (p : Page) : Swap :=
  { s with slots := (key, p) :: s.slots.filter fun slot => slot.1 ≠ key }

theorem copy?_insert (s : Swap) (key k : SwapKey) (p : Page) :
    (s.insert key p).copy? k = if k = key then some p else s.copy? k := by
  have h := KeyedList.lookup_filter (fun a => decide (a ≠ key)) k s.slots
  simp only [insert, copy?, List.lookup_cons]
  by_cases hk : k = key
  · simp [hk]
  · simp only [beq_eq_false_iff_ne.2 hk, if_neg hk]
    rw [h, if_pos (by simpa using hk)]

/-- Save one frame's bytes. A new copy needs room; an earlier copy is replaced even in a full
store. -/
def store (s : Swap) (key : SwapKey) (frame : Bytes) : Except SwapError Swap :=
  match Page.ofBytes? frame with
  | none => .error (.badFrameSize frame.length)
  | some p =>
    match s.capacity with
    | some c =>
      if !s.contains key && c ≤ s.size then .error (.full c)
      else .ok { s.insert key p with stores := s.stores + 1 }
    | none => .ok { s.insert key p with stores := s.stores + 1 }

/-- The store takes a page under the key: it has a copy to replace, or room for one more. -/
def Takes (s : Swap) (key : SwapKey) : Prop :=
  s.contains key = true ∨ ∀ c, s.capacity = some c → s.size < c

/-- What becomes of a store that has saved a frame. -/
theorem of_store {s s' : Swap} {key : SwapKey} {frame : Bytes} (h : s.store key frame = .ok s') :
    ∃ p, s' = { s.insert key p with stores := s.stores + 1 } ∧ s.Takes key := by
  unfold store at h
  cases hp : Page.ofBytes? frame with
  | none =>
    rw [hp] at h
    contradiction
  | some p =>
    rw [hp] at h
    cases hcapacity : s.capacity with
    | none =>
      rw [hcapacity] at h
      exact ⟨p, (Except.ok.inj h).symm, Or.inr fun c hc => nomatch hcapacity.symm.trans hc⟩
    | some c =>
      simp only [hcapacity] at h
      split at h
      · contradiction
      · next hroom =>
        refine ⟨p, (Except.ok.inj h).symm, ?_⟩
        by_cases hcopy : s.contains key = true
        · exact Or.inl hcopy
        · refine Or.inr fun c' hc' => ?_
          cases hcapacity.symm.trans hc'
          simpa [hcopy] using hroom

/-- Read the copy held under `key` into a buffer of `size` bytes; `none` leaves the buffer as it
was. -/
def load (s : Swap) (key : SwapKey) (size : Nat) : Except SwapError (Option Page × Swap) :=
  if s.unreadable key.2 then .error (.badFrameSize size)
  else if size ≠ pageSize then .error (.badFrameSize size)
  else
    match s.copy? key with
    | none => .ok (none, s)
    | some p => .ok (some p, { s with loads := s.loads + 1 })

/-- Forget every copy of one owner. -/
def discard (s : Swap) (owner : ProcessId) : Swap :=
  { s with slots := s.slots.filter fun slot => slot.1.1 ≠ owner }

theorem copy?_discard (s : Swap) (owner : ProcessId) (k : SwapKey) :
    (s.discard owner).copy? k = if k.1 = owner then none else s.copy? k := by
  have h := KeyedList.lookup_filter (fun a : SwapKey => decide (a.1 ≠ owner)) k s.slots
  unfold discard copy?
  rw [h]
  by_cases hk : k.1 = owner <;> simp [hk]

end Swap

end DemandPaging
