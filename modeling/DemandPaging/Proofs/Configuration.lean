import DemandPaging.Proofs.Attributes
import DemandPaging.Proofs.Tolerance

/-!
# The configuration never changes

No move writes the configuration of the kernel, so in every system it is the one that the machine was
started with.
-/

namespace DemandPaging

open Machine

/-- The later machine has the configuration of the earlier one. -/
def Machine.SameConfig (m m' : Machine) : Prop := m'.kernel.config = m.kernel.config

instance : IsPreorder Machine SameConfig where
  refl _ := rfl
  trans _ _ _ h h' := h'.trans h

theorem Machine.tolerant_sameConfig : Tolerant SameConfig := by
  constructor <;> intros <;> rfl

namespace System

variable {s : System}

/-- **A move leaves the configuration as it is.** -/
theorem config_after (s : System) (mv : Move) :
    (s.after mv).machine.kernel.config = s.machine.kernel.config :=
  related_after tolerant_sameConfig s mv fun _ _ _ _ _ _ => rfl

/-- In every system the configuration is that of the machine at the start. -/
theorem Reachable.config {allowed : System → Move → Prop} {config : Config} {swap : Swap}
    {m : Machine} (h : Reachable allowed (ofMachine m) s) (hboot : Machine.boot config swap = .ok m) :
    s.machine.kernel.config = config := by
  obtain ⟨-, rfl⟩ := eq_started_of_boot hboot
  exact h.invariant (P := fun t => t.machine.kernel.config = config) rfl
    fun t mv ht _ => (config_after t mv).trans ht

end System

end DemandPaging
