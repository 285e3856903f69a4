import DemandPaging.Proofs.Acceptance
import DemandPaging.Proofs.Consistency
import DemandPaging.Proofs.Guards
import DemandPaging.Proofs.Teardown

/-!
# Assertions hold

The memory manager asserts a dozen facts about its own state, and each of them holds for a reason
that lies elsewhere. Of all moves only four kinds can violate an assertion at all: a process is made
whose pages or arguments cannot be counted, a teardown meets a pinned frame, an attempt to get at a
page is to blame (`Action.Blame`), or a new process has no stack. Users who are careful
(`System.Careful`) rule out the first two and the overflow of a pin count; the rest is ruled out by
the invariant, since without a teardown that stopped every owner of a frame lives.
-/

namespace DemandPaging

open Machine

namespace Call

variable {m : Machine} {l : Ledger} {c : Call} {x : Progress × Machine} {v : Violation}

/-- A step that violates an assertion tears a process down, or asks for a page, or ends the creation
of a process that has no stack. -/
theorem Stepped.violated (hs : Stepped m l c x) (hx : x.1 = .finished (.violated v)) :
    c.torn? ≠ none ∨ c.process.stackPointer? = none ∨
      ∃ m₁ page kind m', c.Ready m m₁ ∧ c.wanted? = some (page, kind) ∧
        Action.Blame m₁ c.process page v ∧
        (Action.resolve c.process page kind).run m₁ = .error (.violation v) m' := by
  cases hs with
  | asleep stage parked => cases hx
  | quiet stage quiet alike waiters violated => exact Or.inr (Or.inl (violated v hx))
  | @attempt m₁ page kind r ready wanted resolution run =>
    refine Or.inr (Or.inr ⟨m₁, page, kind, (c.afterSeek r).2, ready, wanted, ?_⟩)
    cases resolution with
    | pinned registered sound keeps info idle_le le_idle waiters orderly => cases hx
    | queued idle alike waiters => cases hx
    | @failed err m' sound keeps idle waiters orderly failure =>
      have hstop : Stop.error err = .violation v := eq_violation_of_afterFailure (c := c) hx
      cases hstop
    | stuck image sound keeps idle waiters orderly blame =>
      cases hx
      exact ⟨blame, run⟩
  | unpinned frame info pins writing valid continues => cases hx
  | kept stage wanted writing => cases hx
  | copied stage tasks turn copied valid run => cases hx
  | undone stage departure =>
    refine Or.inl ?_
    rw [torn?, stage]
    exact Option.some_ne_none _

end Call

namespace System

variable {s s' : System} {mv : Move} {v : Violation}

/-! ## Careful users -/

/-- How many guards there are of a frame: one for each time that its page is held, and one for each
call that is at work on it. -/
def guards (s : System) (f : FrameNumber) : Nat :=
  s.held.countP (fun g => g.pin.frame = f) + s.calls.countP (fun c => c.frame? = some f)

end System

end DemandPaging
