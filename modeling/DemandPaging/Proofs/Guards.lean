import DemandPaging.Proofs.Invariant

/-!
# Held pages

A page that someone holds stays where it is: as long as it is held and its process is not torn down,
it is mapped to its frame, the directory says so, the clock passes the frame over, and only writes
to the page change its bytes. The pins of a frame are those of the held pages and of the calls that
are at work on it, so pins are never lost and never left behind.
-/

namespace DemandPaging

open Machine

/-- What holding a page promises. -/
structure HeldPage.Protected (g : HeldPage) (s : System) : Prop where
  registered : s.machine.Registered g.process
  mapped : (s.machine.table g.process).translate? g.pin.page = some g.pin.frame
  recorded : ∃ i, s.machine.frameInfo? g.pin.frame = some i ∧ i.owner = some g.process.pid ∧
    i.page = g.pin.page
  /-- Wherever the hand of the clock is, and whoever waits. -/
  passedOver : ∀ t : FrameTable ProcessId, t.directory = s.machine.kernel.frames.directory →
    t.selectVictim.1 ≠ some g.pin.frame
  bytes : ∀ mv, s.HasRoom mv → s.target? mv ≠ some (g.process.pid, g.pin.page) →
    (s.after mv).machine.kernel.memory.frames[g.pin.frame.toNat]? =
      s.machine.kernel.memory.frames[g.pin.frame.toNat]?

namespace System

variable {s s' : System} {loose : List FrameNumber} {broken : List ProcessId} {g : HeldPage}

/-- The move can be trusted, tears the process of a held page not down, and leaves the page held. -/
def Respects (g : HeldPage) (s : System) (mv : Move) : Prop :=
  s.Trusts mv ∧ s.torn? mv ≠ some g.process.pid ∧ g ∈ (s.after mv).held

/-- A pinned frame is not for the clock to choose. -/
theorem Sound.selectVictim_ne (h : s.Sound loose broken) {f : FrameNumber} (hf : f ∈ s.pins)
    {t : FrameTable ProcessId} (ht : t.directory = s.machine.kernel.frames.directory) :
    t.selectVictim.1 ≠ some f := by
  intro hvictim
  obtain ⟨i, hi, hpins, -⟩ := h.machine.info_of_pinned hf
  have hselect : t.selectVictim = (some f, t.selectVictim.2) := Prod.ext hvictim rfl
  obtain ⟨⟨j, hj, -, hnone⟩, -⟩ := FrameTable.selectVictim_some hselect
  have hij : some i = some j := by
    rw [← hj, ht]
    exact hi.symm
  rw [Option.some.injEq] at hij
  exact hpins (hij ▸ hnone)

/-- A held page is protected as long as its process lives. -/
theorem Sound.isProtected (h : s.Sound loose broken) (hg : g ∈ s.held)
    (hp : s.machine.Registered g.process) : g.Protected s := by
  have hf := mem_pins_of_held hg
  obtain ⟨-, i, hi, howner, hpage⟩ := h.held g hg
  obtain ⟨e, he, hframe⟩ := h.machine.entry_of_pinned hf hi howner hp
  refine ⟨hp, ?_, ⟨i, hi, howner, hpage⟩, fun t ht => h.selectVictim_ne hf ht, ?_⟩
  · rw [translate?_table, ← hpage, he, Option.bind_some, hframe]
  · intro mv hroom htarget
    refine (moved h hroom).spares.bytes _ hf i g.process.pid hi howner ?_
    rw [hpage]
    exact htarget

/-- A process that is not torn down lives on. -/
theorem registered_of_respects (h : s.Sound loose broken) {mv : Move} (hmv : s.Respects g mv)
    (hp : s.machine.Registered g.process) : (s.after mv).machine.Registered g.process :=
  (moved h hmv.1.1).spares.registered _ hp hmv.2.1

/-- A history goes on with the moves of a run that respects a held page. -/
theorem History.respects {start : System} (hs : History Trusts start s broken)
    (hrun : Reachable (Respects g) s s') : ∃ broken', History Trusts start s' broken' := by
  induction hrun with
  | start => exact ⟨broken, hs⟩
  | move mv _ hmv ih =>
    obtain ⟨broken', hs'⟩ := ih
    exact ⟨_, .move mv hs' hmv.1⟩

/-- Along a run that respects a held page, the page stays held and its process lives. -/
theorem held_of_respects {config : Config} {swap : Swap} {m : Machine}
    (hboot : Machine.boot config swap = .ok m) (hs : History Trusts (ofMachine m) s broken)
    (hg : g ∈ s.held) (hp : s.machine.Registered g.process)
    (hrun : Reachable (Respects g) s s') : g ∈ s'.held ∧ s'.machine.Registered g.process := by
  induction hrun with
  | start => exact ⟨hg, hp⟩
  | @move t mv hreach hmv ih =>
    obtain ⟨broken', ht⟩ := hs.respects hreach
    exact ⟨hmv.2.2, registered_of_respects (ht.answers hboot) hmv ih.2⟩

/-! ## Pins -/

/-- The pins of a frame are those of held pages, and those of calls that are at work on it. -/
theorem Sound.pins_eq (h : s.Sound [] broken) {f : FrameNumber} {i : FrameInfo ProcessId}
    (hi : s.machine.frameInfo? f = some i) :
    i.pins = s.held.countP (fun g => g.pin.frame = f) +
      s.calls.countP (fun c => c.frame? = some f) := by
  have hpins : i.pins = s.pins.count f + [].count f := h.machine.agreement.pins f i hi
  have hheld : (s.held.map (·.pin.frame)).count f = s.held.countP (fun g => g.pin.frame = f) := by
    rw [List.count, List.countP_map]
    rfl
  have hcalls : (s.calls.filterMap Call.frame?).count f =
      s.calls.countP (fun c => c.frame? = some f) := by
    rw [List.count_filterMap]
    exact List.countP_congr fun c _ => by simp
  rw [hpins, List.count_nil, Nat.add_zero, pins, List.count_append, hheld, hcalls]

/-- **A held page stays.** In a system that moves led to, let a page of a process that lives be
held, and let any moves follow that neither give the page back nor tear its process down: the page
is protected all along. And at all times the pins of a frame are one for each time that its page is
held and one for each call that is at work on it; so between calls they are those of held pages, and
if nothing is held there are none. -/
theorem protected_of_held {config : Config} {swap : Swap} {m : Machine}
    (hboot : Machine.boot config swap = .ok m) (hs : History Trusts (ofMachine m) s broken) :
    (∀ g ∈ s.held, s.machine.Registered g.process →
      ∀ s', Reachable (Respects g) s s' → g.Protected s') ∧
    ∀ f i, s.machine.frameInfo? f = some i →
      i.pins = s.held.countP (fun g => g.pin.frame = f) +
        s.calls.countP (fun c => c.frame? = some f) ∧
      ((∀ c ∈ s.calls, c.frame? = none) →
        i.pins = s.held.countP (fun g => g.pin.frame = f) ∧ (s.held = [] → i.pins = 0)) := by
  have hsound := hs.answers hboot
  refine ⟨fun g hg hp s' hrun => ?_, fun f i hi => ⟨hsound.pins_eq hi, fun hquiet => ?_⟩⟩
  · obtain ⟨broken', hs'⟩ := hs.respects hrun
    obtain ⟨hg', hp'⟩ := held_of_respects hboot hs hg hp hrun
    exact (hs'.answers hboot).isProtected hg' hp'
  · have hcalls : s.calls.countP (fun c => c.frame? = some f) = 0 := by
      rw [List.countP_eq_zero]
      intro c hc
      rw [hquiet c hc]
      exact fun heq => nomatch of_decide_eq_true heq
    have hpins := hsound.pins_eq hi
    rw [hcalls, Nat.add_zero] at hpins
    refine ⟨hpins, fun hheld => ?_⟩
    rw [hpins, hheld]
    rfl

/-- The page stays where it is while a fault of another page waits for a frame, and its frame has
one pin. -/
theorem protected_of_held_holding :
    ∃ g, holding.held = [g] ∧
      g.Protected ((holding.after (.request 0 (.fault ⟨1⟩))).after (.step 0)) ∧
      ∃ i, holding.machine.frameInfo? ⟨0⟩ = some i ∧ i.pins = 1 := by
  have hprotected :=
    @protected_of_held holding [] ⟨1, 1, true⟩ (.empty none) (fresh 1) rfl history_holding
  let g := holding.held.head (List.cons_ne_nil _ _)
  have hg : holding.held = [g] := rfl
  have hrun : Reachable (Respects g) holding
      ((holding.after (.request 0 (.fault ⟨1⟩))).after (.step 0)) :=
    .move _ (.move _ .start ⟨trusts_of_ne nofun, nofun, List.mem_singleton_self g⟩)
      ⟨trusts_of_ne nofun, nofun, List.mem_singleton_self g⟩
  refine ⟨g, hg, hprotected.1 g List.mem_cons_self rfl _ hrun, ?_⟩
  obtain ⟨i, hi⟩ : ∃ i, holding.machine.frameInfo? ⟨0⟩ = some i := ⟨_, rfl⟩
  have hquiet : ∀ c ∈ holding.calls, c.frame? = none := fun c hc => absurd hc List.not_mem_nil
  exact ⟨i, hi, ((hprotected.2 ⟨0⟩ i hi).2 hquiet).1⟩

end System

end DemandPaging
