import DemandPaging.Frames.Directory

/-!
# The clock

Victims are chosen by the second-chance rule. The hand sweeps over the frames once: free and pinned
frames are passed over, a referenced frame loses its mark and is passed over, and the first frame
that is neither is chosen. If the sweep comes round without a choice, the first frame that lost its
mark is chosen. The hand then stops just past the chosen frame.
-/

namespace DemandPaging

/-- The hand of the clock: the position at which the next sweep starts. -/
structure Clock where
  hand : Nat
  deriving DecidableEq

namespace Clock

variable {O : Type}

def zero : Clock := ⟨0⟩

/-- The positions of one turn over `n` frames that starts at `hand`. -/
def turn (hand n : Nat) : List FrameNumber :=
  (List.range n).map fun i => FrameNumber.ofNat ((hand + i) % n)

/-- Sweep over the given frames. `candidate` is the first frame that lost its mark so far. -/
def sweep : List FrameNumber → Option FrameNumber → Directory O → Option FrameNumber × Directory O
  | [], candidate, d => (candidate, d)
  | f :: fs, candidate, d =>
    match d.get? f with
    | none => sweep fs candidate d
    | some i =>
      if i.isFree || i.isPinned then sweep fs candidate d
      else if i.referenced then
        sweep fs (candidate.or (some f)) (d.set f { i with referenced := false })
      else (some f, d)

/-- Choose a victim and move the hand; without a victim nothing changes. -/
def selectVictim (c : Clock) (d : Directory O) : Option FrameNumber × Clock × Directory O :=
  match sweep (turn c.hand d.size) none d with
  | (none, _) => (none, c, d)
  | (some f, d') => (some f, ⟨(f.toNat + 1) % d.size⟩, d')

instance : Inspect Clock where
  inspect c := Inspect.record "ClockEvictionPolicy" [("cursor", inspect c.hand)]

end Clock

end DemandPaging
