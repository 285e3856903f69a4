import Mathlib.Order.Defs.Unbundled
import DemandPaging.Kernel.Call
import DemandPaging.Proofs.Effect

/-!
# What actions ensure

An action ensures a relation between machines if it leads every machine to a related one, whether it
succeeds or fails (`Action.Ensures`). Preorders go through sequences of actions, so it is enough to look
at the parts of an action one by one.
-/

namespace DemandPaging

/-- An action has ended, however it did, on a machine with the given property. -/
def EndsIn {α : Type} (P : Machine → Prop) : EStateM.Result (Stop VmError) Machine α → Prop
  | .ok _ m => P m
  | .error _ m => P m

theorem EndsIn.mono {α : Type} {P Q : Machine → Prop}
    {r : EStateM.Result (Stop VmError) Machine α} (h : EndsIn P r) (hPQ : ∀ m, P m → Q m) :
    EndsIn Q r := by
  cases r <;> exact hPQ _ h

variable {R : Machine → Machine → Prop}

namespace Action

variable {α β : Type}

/-- The machine that the action leaves behind is related to the one before. -/
def Ensures (R : Machine → Machine → Prop) (x : Action α) : Prop := ∀ m, EndsIn (R m) (x.run m)

/-- An action that looks at the machine first. -/
theorem ensures_get_bind {f : Machine → Action β} (h : ∀ m, EndsIn (R m) ((f m).run m)) :
    Ensures R (get >>= f) := h

theorem ensures_get_bind_of_all {f : Machine → Action β} (h : ∀ m, Ensures R (f m)) :
    Ensures R (get >>= f) := fun m => h m m

theorem ensures_modify {f : Machine → Machine} (h : ∀ m, R m (f m)) :
    Ensures R (modify f : Action Unit) := h

variable [IsPreorder Machine R]

theorem ensures_pure (a : α) : Ensures R (pure a) := fun m => Std.Refl.refl m

theorem ensures_throw (stop : Stop VmError) : Ensures R (throw stop : Action α) :=
  fun m => Std.Refl.refl m

/-- An action goes on after its first part, on the machine that this part has left behind. -/
theorem endsIn_bind {x : Action α} {f : α → Action β} {m : Machine} (hx : EndsIn (R m) (x.run m))
    (hf : ∀ a, Ensures R (f a)) : EndsIn (R m) ((x >>= f).run m) := by
  rw [EStateM.run_bind]
  cases hrun : x.run m with
  | error stop m' =>
    rw [hrun] at hx
    exact hx
  | ok a m' =>
    rw [hrun] at hx
    exact (hf a m').mono fun m₂ => IsTrans.trans m m' m₂ hx

theorem Ensures.bind {x : Action α} {f : α → Action β} (hx : Ensures R x)
    (hf : ∀ a, Ensures R (f a)) : Ensures R (x >>= f) := fun m => endsIn_bind (hx m) hf

theorem ensures_ofExcept (x : Except Violation α) : Ensures R (ofExcept x) := by
  cases x with
  | ok a => exact ensures_pure a
  | error v => exact ensures_throw _

/-- A change of the pool, which leaves the machine as it is if it violates an assertion. -/
theorem ensures_onFrames {f : FrameTable ProcessId → Except Violation (α × FrameTable ProcessId)}
    (h : ∀ m a t, f m.kernel.frames = .ok (a, t) → R m (m.withFrames t)) :
    Ensures R (onFrames f) := by
  intro m
  cases hf : f m.kernel.frames with
  | error v =>
    rw [run_onFrames_error hf]
    exact Std.Refl.refl m
  | ok r =>
    rw [run_onFrames hf]
    exact h m r.1 r.2 hf

theorem ensures_onFrames_map {f : FrameTable ProcessId → Except Violation (FrameTable ProcessId)}
    (h : ∀ m t, f m.kernel.frames = .ok t → R m (m.withFrames t)) :
    Ensures R (onFrames fun t => (f t).map ((), ·)) := by
  refine ensures_onFrames fun m u t ht => h m t ?_
  cases hf : f m.kernel.frames <;> simp_all [Except.map]

end Action

/-! ## Steps of calls -/

namespace Call

open DemandPaging.Action

/-- A step leads to the machine that the action of the call has ended on. -/
theorem step_of_endsIn {P : Machine → Prop} {c : Call} {m : Machine}
    (h : EndsIn P (c.proceed.run m)) : P (c.step m).2 := by
  unfold step
  cases hrun : c.proceed.run m <;>
  · rw [hrun] at h
    exact h

theorem ensures_step {c : Call} (h : Ensures R c.proceed) (m : Machine) : R m (c.step m).2 :=
  step_of_endsIn (h m)

variable [IsPreorder Machine R] (c : Call) (hnote : ∀ e, Ensures R (note e))
include hnote

theorem ensures_endTask (a : Answer) (rest : List Task) : Ensures R (c.endTask a rest) := by
  unfold endTask
  split
  · unfold conclude
    split
    · dsimp only
      split
      · exact ensures_throw _
      · exact (hnote _).bind fun _ => ensures_pure _
    · exact ensures_pure _
    · exact ensures_pure _
  · exact ensures_pure _

theorem ensures_endCopy (copy : Copy) (rest : List Task) : Ensures R (c.endCopy copy rest) := by
  unfold endCopy
  split
  · exact ensures_throw _
  · exact c.ensures_endTask hnote _ _

/-- A call that asks for no page does nothing but to note. -/
theorem ensures_begin (hseek : ∀ page kind, c.wanted? = some (page, kind) →
    Ensures R (c.seek page kind)) : Ensures R c.begin := by
  unfold wanted? at hseek
  unfold begin
  split
  · exact c.ensures_endTask hnote .done []
  · unfold beginLoad
    split
    · exact (hnote _).bind fun _ => c.ensures_endTask hnote _ _
    · refine ensures_get_bind_of_all fun m => ?_
      dsimp only
      split
      · exact (hnote _).bind fun _ => ensures_throw _
      · exact ensures_pure _
  · exact ensures_throw _
  · next htasks =>
    split
    · next hlt => exact hseek _ _ (by simp only [htasks, hlt, if_true])
    · exact c.ensures_endTask hnote _ _
  · next htasks => exact hseek _ _ (by simp only [htasks])
  · next htasks =>
    split
    · next hturn => exact hseek _ _ (by simp only [htasks, hturn])
    · exact c.ensures_endCopy hnote _ _
    · exact (hnote _).bind fun _ => c.ensures_endCopy hnote _ _

end Call

end DemandPaging
