import DemandPaging.Proofs.Endings
import DemandPaging.Proofs.Invariant
import DemandPaging.Proofs.Promises

/-!
# What is common to all moves

A relation between machines is tolerant if it goes along with every single thing that actions do,
apart from making a process (`Machine.Tolerant`). Such a relation holds between the machines before and
after any step of a call (`Machine.Tolerant.ensures_proceed`) and any other move (`System.related_after`).
-/

namespace DemandPaging

open DemandPaging.Action

theorem EndsWith.endsIn {α : Type} {I : Machine → Prop} {Q : α → Prop} {E : VmError → Prop}
    {r : EStateM.Result (Stop VmError) Machine α} (h : EndsWith I Q E r) : EndsIn I r := by
  cases r with
  | ok a m => exact h.1
  | error stop m =>
    cases stop with
    | error e => exact h.1
    | violation v => exact h

variable {R : Machine → Machine → Prop}

/-- The relation goes along with everything that actions do to a machine one by one, apart from making
a process. -/
structure Machine.Tolerant (R : Machine → Machine → Prop) : Prop where
  noted : ∀ m ev, R m (m.noted ev)
  counted : ∀ m f, R m (m.counted f)
  withFrames : ∀ m t, R m (m.withFrames t)
  withMemory : ∀ m memory, R m (m.withMemory memory)
  withTables : ∀ m tables, R m { m with tables }
  stored : ∀ m key bytes swap, m.kernel.swap.store key bytes = .ok swap → R m (m.withSwap swap)
  loaded : ∀ m key size content swap, m.kernel.swap.load key size = .ok (content, swap) →
    R m (m.withSwap swap)
  discarded : ∀ m pid, R m (m.withSwap (m.kernel.swap.discard pid))
  spoiled : ∀ m unreadable, R m (m.spoiled unreadable)
  without : ∀ m pid, R m (m.without pid)

namespace Machine.Tolerant

variable {α : Type} (h : Tolerant R)
include h

/-! ## Building blocks -/

theorem ensures_note (ev : Event) : Ensures R (note ev) := ensures_modify (h.noted · ev)

theorem ensures_onTable (p : UserProcess) (f : PageTable → PageTable) : Ensures R (onTable p f) :=
  ensures_modify (h.withTables · _)

variable [IsPreorder Machine R]

theorem ensures_onFrames (f : FrameTable ProcessId → Except Violation (α × FrameTable ProcessId)) :
    Ensures R (onFrames f) := Action.ensures_onFrames fun m _ t _ => h.withFrames m t

theorem ensures_onMemory (f : PhysicalMemory → Except Violation PhysicalMemory) :
    Ensures R (onMemory f) := by
  refine ensures_get_bind fun m => ?_
  cases hf : f m.kernel.memory with
  | error v => exact ensures_throw (.violation v) m
  | ok memory => exact h.withMemory m memory

theorem ensures_release (f : FrameNumber) : Ensures R (release f) :=
  (h.ensures_onFrames _).bind fun _ => h.ensures_note _

/-! ## Attempts -/

/-- What is related to `m₀` stays so. -/
theorem bears (m₀ : Machine) : Bears (R m₀) where
  noted m ev hm := IsTrans.trans m₀ m _ hm (h.noted m ev)
  counted m f hm := IsTrans.trans m₀ m _ hm (h.counted m f)
  withFrames m t hm := IsTrans.trans m₀ m _ hm (h.withFrames m t)
  withMemory m memory hm := IsTrans.trans m₀ m _ hm (h.withMemory m memory)
  withTables m tables hm := IsTrans.trans m₀ m _ hm (h.withTables m tables)
  stored m _ _ swap hm hstore := IsTrans.trans m₀ m _ hm (h.stored m _ _ swap hstore)
  loaded m _ _ swap hm hload := IsTrans.trans m₀ m _ hm (h.loaded m _ _ _ swap hload)

theorem ensures_resolve (p : UserProcess) (page : PageNumber) (kind : AccessKind) :
    Ensures R (resolve p page kind) := by
  intro m
  have hadmits : Admits (R m) fun _ => True :=
    ⟨fun _ _ _ _ _ _ => trivial, fun _ _ _ _ _ => trivial, fun _ => trivial⟩
  have hstands : Stands (R m) (fun _ => True) (resolve p page kind) :=
    (h.bears m).stands_resolve hadmits (fun _ _ => trivial) trivial trivial trivial kind
  exact (hstands m (Std.Refl.refl m)).endsIn

/-! ## Other critical sections -/

theorem ensures_transfer (p : UserProcess) (c : Copy) (piece : CopyPiece) (f : FrameNumber) :
    Ensures R (transfer p c piece f) := by
  unfold transfer
  cases c.kind with
  | read =>
    exact ensures_get_bind_of_all fun _ => (ensures_ofExcept _).bind fun _ =>
      (ensures_pure _).bind fun _ => (h.ensures_onTable p _).bind fun _ => ensures_pure _
  | write =>
    exact (h.ensures_onMemory _).bind fun _ => (ensures_pure _).bind fun _ =>
      (h.ensures_onTable p _).bind fun _ => ensures_pure _

theorem ensures_giveBack (p : UserProcess) (owned : List (FrameNumber × PageNumber)) :
    Ensures R (giveBack p owned) := by
  induction owned with
  | nil => exact ensures_pure _
  | cons x rest ih =>
    exact (h.ensures_onTable p _).bind fun _ => (h.ensures_release _).bind fun _ =>
      (h.ensures_onFrames _).bind fun _ => ih

theorem ensures_tearDown (p : UserProcess) : Ensures R (tearDown p) := by
  refine (ensures_modify (h.without · p.pid)).bind fun _ => ensures_get_bind_of_all fun _ =>
    (h.ensures_giveBack p _).bind fun _ => ensures_get_bind fun m => ?_
  exact endsIn_bind (h.discarded m p.pid) fun _ => h.ensures_note _

/-! ## Steps of calls -/

variable (c : Call)

theorem ensures_seek (page : PageNumber) (kind : AccessKind) : Ensures R (c.seek page kind) := by
  refine (h.ensures_resolve c.process page kind).bind fun g => ?_
  cases g <;> exact ensures_pure _

theorem ensures_use (f : FrameNumber) : Ensures R (c.use f) := by
  unfold Call.use
  split
  · exact (h.ensures_onFrames _).bind fun _ => ensures_pure _
  · exact c.ensures_endTask h.ensures_note _ _
  · split
    · exact (h.ensures_transfer c.process _ _ f).bind fun _ => ensures_pure _
    · exact ensures_pure _
  · exact ensures_pure _

theorem ensures_proceed : Ensures R c.proceed := by
  unfold Call.proceed
  split
  · exact c.ensures_begin h.ensures_note fun page kind _ => h.ensures_seek c page kind
  · refine (h.ensures_onFrames _).bind fun woken => ?_
    split
    · split
      · exact ensures_pure _
      · exact (h.ensures_note _).bind fun _ => h.ensures_seek c _ _
    · exact ensures_pure _
  · exact h.ensures_use c _
  · exact (h.ensures_onFrames _).bind fun _ => ensures_pure _
  · exact (h.ensures_note _).bind fun _ => (h.ensures_tearDown _).bind fun _ => ensures_pure _

end Machine.Tolerant

/-! ## Moves -/

namespace System

theorem related_perform {x : Action Unit} (h : Ensures R x) (s : System) :
    R s.machine (s.perform x).2.machine := by
  have h := h s.machine
  unfold perform
  cases hrun : x.run s.machine <;> simp only [hrun] at h ⊢ <;> exact h

variable [IsPreorder Machine R]

/-- **A tolerant relation holds between the machines before and after a move**, if it goes along with
the process that the move makes. -/
theorem related_after (h : Machine.Tolerant R) (s : System) (mv : Move)
    (hjoined : ∀ image args mode, mv = .spawn image args mode →
      ∀ p t, R s.machine (s.machine.joined p t)) : R s.machine (s.after mv).machine := by
  cases mv with
  | spawn image args mode =>
    rcases move_spawn s image args mode with ⟨stop, -, hmove⟩ | ⟨c, m, hbirth, hmove⟩
    · rw [after, hmove]
      exact Std.Refl.refl _
    · rw [after, hmove]
      cases hbirth with
      | begun => exact hjoined image args mode rfl _ _
  | request i r =>
    simp only [after, move]
    split <;> exact Std.Refl.refl _
  | step i =>
    cases hc : s.calls[i]? with
    | none =>
      simp only [after, move, stepCall, hc]
      exact Std.Refl.refl _
    | some c =>
      rw [machine_after_step hc]
      exact Call.ensures_step (h.ensures_proceed c) s.machine
  | drop i =>
    simp only [after, move]
    split
    · exact Std.Refl.refl _
    · exact related_perform (h.ensures_onFrames _) { s with held := s.held.eraseIdx i }
  | release i =>
    simp only [after, move]
    split
    · exact Std.Refl.refl _
    · exact related_perform (h.ensures_tearDown _) s
  | spoil unreadable => exact h.spoiled s.machine unreadable

end System

end DemandPaging
