import DemandPaging.Kernel.Teardown
import DemandPaging.Proofs.Effect

/-!
# What actions promise

An action promises a property of the machine, a kind of value and a kind of error if, on a machine with
the property, it leaves a machine with the property and ends with such a value or error
(`Action.Promises`). Promises go through sequences of actions, so it is enough to look at the parts of
an action one by one. What an attempt to get at a page does is listed once (`Machine.Bears`,
`Machine.Admits`): a property that bears all of it is left in place by the attempt
(`Machine.Bears.stands_resolve`).
-/

namespace DemandPaging

/-- An action has ended on a machine with the property `I`, with a value in `Q`, an error in `E`, or
some violation. -/
def EndsWith {α : Type} (I : Machine → Prop) (Q : α → Prop) (E : VmError → Prop) :
    EStateM.Result (Stop VmError) Machine α → Prop
  | .ok a m => I m ∧ Q a
  | .error (.error e) m => I m ∧ E e
  | .error (.violation _) m => I m

namespace Action

variable {α β : Type} {I : Machine → Prop} {P : α → Prop} {Q : β → Prop} {E : VmError → Prop}

/-- On a machine with the property `I` the action ends on such a machine, with a value in `Q` or an
error in `E`. -/
def Promises (I : Machine → Prop) (Q : α → Prop) (E : VmError → Prop) (x : Action α) : Prop :=
  ∀ m, I m → EndsWith I Q E (x.run m)

/-- On a machine with the property `I` the action ends on such a machine, and any error is in `E`. -/
abbrev Stands (I : Machine → Prop) (E : VmError → Prop) (x : Action α) : Prop :=
  Promises I (fun _ => True) E x

/-! ## Building blocks -/

theorem promises_pure {a : α} (h : P a) : Promises I P E (pure a) := fun _ hm => ⟨hm, h⟩

theorem promises_fail {e : VmError} (h : E e) : Promises I P E (fail e) := fun _ hm => ⟨hm, h⟩

theorem promises_violate (v : Violation) : Promises I P E (violate v) := fun _ hm => hm

/-- An action goes on after its first part, on the machine that this part has left behind. -/
theorem endsWith_bind {x : Action α} {f : α → Action β} {m : Machine}
    (hx : EndsWith I (fun _ => True) E (x.run m)) (hf : ∀ a, Promises I Q E (f a)) :
    EndsWith I Q E ((x >>= f).run m) := by
  rw [EStateM.run_bind]
  cases hrun : x.run m with
  | ok a m' =>
    rw [hrun] at hx
    exact hf a m' hx.1
  | error stop m' =>
    rw [hrun] at hx
    cases stop <;> exact hx

theorem Promises.bind {x : Action α} {f : α → Action β} (hx : Stands I E x)
    (hf : ∀ a, Promises I Q E (f a)) : Promises I Q E (x >>= f) :=
  fun m hm => endsWith_bind (hx m hm) hf

/-- An action that looks at the machine first. -/
theorem promises_get_bind {f : Machine → Action β}
    (h : ∀ m, I m → EndsWith I Q E ((f m).run m)) : Promises I Q E (get >>= f) := h

theorem promises_get_bind_of_all {f : Machine → Action β} (h : ∀ m, Promises I Q E (f m)) :
    Promises I Q E (get >>= f) := fun m hm => h m m hm

theorem stands_pure (a : α) : Stands I E (pure a) := promises_pure trivial

theorem stands_modify {f : Machine → Machine} (h : ∀ m, I m → I (f m)) :
    Stands I E (modify f : Action Unit) := fun m hm => ⟨h m hm, trivial⟩

theorem stands_ofExcept (x : Except Violation α) : Stands I E (ofExcept x) := by
  cases x with
  | ok a => exact stands_pure a
  | error v => exact promises_violate v

theorem stands_frameInfo (f : FrameNumber) : Stands I E (frameInfo f) := by
  refine promises_get_bind_of_all fun m => ?_
  cases m.frameInfo? f with
  | none => exact promises_violate _
  | some i => exact stands_pure i

theorem stands_frameBytes (f : FrameNumber) : Stands I E (frameBytes f) :=
  promises_get_bind_of_all fun _ => stands_ofExcept _

end Action

/-- Machines with the property `I` bear everything that attempts to get at pages do to a machine one by
one. -/
structure Machine.Bears (I : Machine → Prop) : Prop where
  noted : ∀ m ev, I m → I (m.noted ev)
  counted : ∀ m f, I m → I (m.counted f)
  withFrames : ∀ m t, I m → I (m.withFrames t)
  withMemory : ∀ m memory, I m → I (m.withMemory memory)
  withTables : ∀ m tables, I m → I { m with tables }
  stored : ∀ m key (content : Page) swap, I m →
    m.kernel.swap.store key content.bytes = .ok swap → I (m.withSwap swap)
  loaded : ∀ m key copy? swap, I m → m.kernel.swap.load key pageSize = .ok (copy?, swap) →
    I (m.withSwap swap)

/-- What stores and page tables complain of in machines with the property `I` is in `E`. -/
structure Machine.Admits (I : Machine → Prop) (E : VmError → Prop) : Prop where
  unsaved : ∀ m key (content : Page) e, I m →
    m.kernel.swap.store key content.bytes = .error e → E (.swap e)
  unread : ∀ m key e, I m → m.kernel.swap.load key pageSize = .error e → E (.swap e)
  pageTable : ∀ e, E (.pageTable e)

namespace Machine.Bears

open DemandPaging.Action

variable {α : Type} {I : Machine → Prop} {E : VmError → Prop} (h : Bears I)
include h

theorem stands_note (ev : Event) : Stands I E (note ev) := stands_modify (h.noted · ev)

theorem stands_count (f : Stats → Stats) : Stands I E (count f) := stands_modify (h.counted · f)

theorem stands_onTable (p : UserProcess) (f : PageTable → PageTable) : Stands I E (onTable p f) :=
  stands_modify (h.withTables · _)

theorem stands_onFrames (f : FrameTable ProcessId → Except Violation (α × FrameTable ProcessId)) :
    Stands I E (onFrames f) := by
  intro m hm
  cases hf : f m.kernel.frames with
  | error v =>
    rw [run_onFrames_error hf]
    exact hm
  | ok r =>
    rw [run_onFrames hf]
    exact ⟨h.withFrames m r.2 hm, trivial⟩

theorem stands_onMemory (f : PhysicalMemory → Except Violation PhysicalMemory) :
    Stands I E (onMemory f) := by
  refine promises_get_bind fun m hm => ?_
  cases hf : f m.kernel.memory with
  | error v => exact hm
  | ok memory => exact ⟨h.withMemory m memory hm, trivial⟩

theorem stands_release (f : FrameNumber) : Stands I E (release f) :=
  (h.stands_onFrames _).bind fun _ => h.stands_note _

theorem stands_allocate (owner : ProcessId) (page : PageNumber) :
    Stands I E (allocate owner page) := by
  refine (h.stands_onFrames _).bind fun r => ?_
  cases r with
  | none => exact stands_pure none
  | some f => exact (h.stands_note _).bind fun _ => stands_pure _

theorem stands_selectVictim : Stands I E selectVictim := by
  refine (h.stands_onFrames _).bind fun r => ?_
  cases r with
  | none => exact stands_pure none
  | some f =>
    exact (stands_frameInfo f).bind fun _ => promises_get_bind_of_all fun _ =>
      (h.stands_note _).bind fun _ => stands_pure _

/-! ## Attempts -/

section Admitted

variable (hE : Admits I E)
include hE

theorem stands_changeTable (p : UserProcess)
    (f : PageTable → Except (Stop PageTableError) PageTable) : Stands I E (changeTable p f) := by
  refine promises_get_bind fun m hm => ?_
  cases hf : f (m.table p) with
  | ok t => exact ⟨h.withTables m _ hm, trivial⟩
  | error stop =>
    cases stop with
    | error e => exact ⟨hm, hE.pageTable e⟩
    | violation v => exact hm

theorem stands_saveToSwap (owner : UserProcess) (page : PageNumber) (old : PageEntry)
    (victim : FrameNumber) : Stands I E (saveToSwap owner page old victim) := by
  refine (stands_frameBytes victim).bind fun content => promises_get_bind fun m hm => ?_
  cases hstore : m.kernel.swap.store (owner.pid, page) content.bytes with
  | ok swap =>
    exact endsWith_bind ⟨h.stored m _ content swap hm hstore, trivial⟩ fun _ => h.stands_count _
  | error e =>
    exact ((h.stands_note _).bind fun _ => (h.stands_changeTable hE owner _).bind fun _ =>
      promises_fail (hE.unsaved m _ content e hm hstore)) m hm

theorem stands_unmapVictim (owner : UserProcess) (page : PageNumber) (victim : FrameNumber) :
    Stands I E (unmapVictim owner page victim) := by
  refine promises_get_bind_of_all fun m => (h.stands_onTable owner _).bind fun _ => ?_
  cases m.entryOf? owner page with
  | none => exact promises_violate _
  | some old =>
    dsimp only
    split
    · split
      · exact (h.stands_saveToSwap hE owner page old victim).bind fun _ => h.stands_note _
      · exact h.stands_note _
    · exact promises_violate _

theorem stands_evict (victim : FrameNumber) : Stands I E (evict victim) := by
  refine (stands_frameInfo victim).bind fun info => ?_
  cases info.owner with
  | none => exact promises_violate _
  | some pid =>
    dsimp only
    split
    · exact promises_violate _
    · refine promises_get_bind_of_all fun m => ?_
      cases m.process? pid with
      | none => exact promises_violate _
      | some owner =>
        exact (h.stands_unmapVictim hE owner _ victim).bind fun _ =>
          (h.stands_release _).bind fun _ => h.stands_count _

theorem stands_acquireFrame (p : UserProcess) (page : PageNumber) :
    Stands I E (acquireFrame p page) := by
  refine (h.stands_allocate p.pid page).bind fun free => ?_
  cases free with
  | some f => exact stands_pure _
  | none =>
    refine h.stands_selectVictim.bind fun victim => ?_
    cases victim with
    | none => exact stands_pure _
    | some victim => exact (h.stands_evict hE victim).bind fun _ => h.stands_allocate p.pid page

omit hE in
/-- A frame that is given back takes the error along. -/
theorem stands_orGiveBack {x : Action Unit} (hx : Stands I E x) (f : FrameNumber) :
    Stands I E (orGiveBack f x) := by
  intro m hm
  have hend := hx m hm
  rw [run_orGiveBack]
  cases hrun : x.run m with
  | ok u m' =>
    rw [hrun] at hend
    exact hend
  | error stop m' =>
    rw [hrun] at hend
    cases stop with
    | violation v => exact hend
    | error e =>
      exact ((h.stands_onFrames _).bind fun _ => (h.stands_release f).bind fun _ =>
        promises_fail hend.2) m' hend.1

section Content

variable {p : UserProcess} {page : PageNumber}
  (hcontent : ∀ e, p.initialContent page = .error (.error e) → E e)
include hcontent

theorem stands_populate (f : FrameNumber) : Stands I E (populate p page f) := by
  refine promises_get_bind fun m hm => ?_
  split
  · next e hload => exact ⟨hm, hE.unread m _ e hm hload⟩
  · next content swap hload =>
    exact ((h.stands_onMemory _).bind fun _ => (h.stands_count _).bind fun _ => h.stands_note _)
      (m.withSwap swap) (h.loaded m _ _ swap hm hload)
  · split
    · next stop hstop =>
      cases stop with
      | error e => exact ⟨hm, hcontent e hstop⟩
      | violation v => exact hm
    · exact h.stands_onMemory _ m hm

theorem stands_bringIn (f : FrameNumber) : Stands I E (bringIn p page f) :=
  promises_get_bind_of_all fun _ => (h.stands_note _).bind fun _ =>
    (h.stands_orGiveBack (h.stands_populate hE hcontent f) f).bind fun _ =>
      (h.stands_note _).bind fun _ =>
        (h.stands_orGiveBack (h.stands_changeTable hE p _) f).bind fun _ =>
          (h.stands_onFrames _).bind fun _ => (h.stands_count _).bind fun _ => h.stands_note _

theorem stands_serveMiss : Stands I E (serveMiss p page) := by
  refine (h.stands_note _).bind fun _ => (h.stands_note _).bind fun _ =>
    (h.stands_acquireFrame hE p page).bind fun free => ?_
  cases free with
  | some f => exact (h.stands_bringIn hE hcontent f).bind fun _ => stands_pure _
  | none =>
    exact ((h.stands_onFrames _).bind fun _ => (h.stands_count _).bind fun _ =>
      (h.stands_note _).bind fun _ => stands_pure _).bind fun _ => stands_pure _

/-- **What an attempt to get at a page promises.** -/
theorem stands_resolve (hexited : E (.processExited p.pid))
    (hfault : E (.segmentationFault p.pid page)) (hwrite : E (.readOnlyViolation p.pid page))
    (kind : AccessKind) : Stands I E (resolve p page kind) := by
  refine Promises.bind (promises_get_bind_of_all fun m => ?_) fun e => ?_
  · split
    · split
      · exact promises_fail hfault
      · split
        · exact promises_fail hwrite
        · exact stands_pure _
    · exact promises_fail hexited
  · split
    · exact (h.stands_onFrames _).bind fun _ => (h.stands_onFrames _).bind fun _ => stands_pure _
    · exact h.stands_serveMiss hE hcontent

end Content

end Admitted

end Machine.Bears

end DemandPaging
