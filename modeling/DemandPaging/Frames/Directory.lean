import DemandPaging.Violation

/-!
# The frame directory

For every frame of the pool: who owns it, for which page, how often it is pinned and whether it was
referenced since the clock last passed. Owners are of any type; the memory manager uses process
identities.
-/

namespace DemandPaging

/-- What the directory records of one frame. A frame without owner is free. -/
structure FrameInfo (O : Type) where
  owner : Option O
  page : PageNumber
  pins : Nat
  referenced : Bool
  deriving DecidableEq

namespace FrameInfo

variable {O : Type}

/-- The record of a free frame. -/
def free : FrameInfo O := ⟨none, ⟨0⟩, 0, false⟩

def isFree (i : FrameInfo O) : Bool := i.owner.isNone

def isPinned (i : FrameInfo O) : Bool := 0 < i.pins

/-- Pins are counted in 32 bits. -/
def maxPins : Nat := 0xFFFF_FFFF

instance [Inspect O] : Inspect (FrameInfo O) where
  inspect i :=
    match i.owner with
    | none => "FrameInfo(free)"
    | some o => Inspect.record "FrameInfo"
        [("owner", inspect o), ("vpn", inspect i.page), ("pins", inspect i.pins),
          ("ref", inspect i.referenced)]

end FrameInfo

/-- The records of all frames, by frame number. -/
structure Directory (O : Type) where
  entries : Array (FrameInfo O)

namespace Directory

variable {O : Type}

/-- A directory of `n` free frames. -/
def ofSize (n : Nat) : Directory O := ⟨Array.replicate n FrameInfo.free⟩

/-- A directory of `n` free frames, if that many frames can be numbered. -/
def ofSize? (n : Nat) : Option (Directory O) := if n ≤ wordBound then some (ofSize n) else none

def size (d : Directory O) : Nat := d.entries.size

def isEmpty (d : Directory O) : Bool := d.entries.isEmpty

def get? (d : Directory O) (f : FrameNumber) : Option (FrameInfo O) := d.entries[f.toNat]?

/-- The directory with record `i` for frame `f`; a frame outside changes nothing. -/
def set (d : Directory O) (f : FrameNumber) (i : FrameInfo O) : Directory O :=
  ⟨d.entries.setIfInBounds f.toNat i⟩

@[simp] theorem size_set (d : Directory O) (f : FrameNumber) (i : FrameInfo O) :
    (d.set f i).size = d.size := by
  simp [set, size]

theorem get?_set (d : Directory O) (f g : FrameNumber) (i : FrameInfo O) :
    (d.set f i).get? g = if g = f then (d.get? f).map fun _ => i else d.get? g := by
  simp only [set, get?]
  by_cases h : g = f
  · subst h
    simp only [Array.getElem?_setIfInBounds_self, if_true]
    split <;> simp [*]
  · rw [Array.getElem?_setIfInBounds_ne fun hn => h (FrameNumber.toNat_inj.1 hn).symm, if_neg h]

theorem get?_ofSize (n : Nat) (f : FrameNumber) :
    (ofSize n : Directory O).get? f = if f.toNat < n then some .free else none := by
  simp [ofSize, get?, Array.getElem?_replicate]

/-- Change the record of a frame that exists. -/
def update (d : Directory O) (f : FrameNumber) (g : FrameInfo O → FrameInfo O) :
    Except Violation (Directory O) :=
  match d.get? f with
  | none => .error .outOfBounds
  | some i => .ok (d.set f (g i))

/-- Give a free frame to `owner` for `page`, with one pin. -/
def assign (d : Directory O) (f : FrameNumber) (owner : O) (page : PageNumber) :
    Except Violation (Directory O) :=
  match d.get? f with
  | none => .error .outOfBounds
  | some i =>
    if i.isFree then .ok (d.set f ⟨some owner, page, 1, false⟩)
    else .error (.assignedWhileOwned f)

/-- Make a frame free, whatever it was. -/
def clear (d : Directory O) (f : FrameNumber) : Except Violation (Directory O) :=
  d.update f fun _ => FrameInfo.free

/-- All frame numbers of the directory, in ascending order. -/
def frames (d : Directory O) : List FrameNumber := (List.range d.size).map FrameNumber.ofNat

/-- All records with their frame numbers, in ascending order. -/
def toList (d : Directory O) : List (FrameNumber × FrameInfo O) :=
  d.entries.toList.zipIdx.map fun (i, n) => (FrameNumber.ofNat n, i)

/-- The frames of one owner and the pages they hold, in ascending order of frames. -/
def ownedBy [DecidableEq O] (d : Directory O) (owner : O) : List (FrameNumber × PageNumber) :=
  d.toList.filterMap fun (f, i) => if i.owner = some owner then some (f, i.page) else none

end Directory

end DemandPaging
