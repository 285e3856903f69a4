import DemandPaging.Proofs.Turns

/-!
# Once dead, always dead

When the teardown of a process ends without a violation, nothing of the process is left but a page
table in which no page is resident (`Machine.Gone`), and no move changes that. Whatever is still asked
of the process ends with an error and takes no frame: calls that come later, calls that were on
their way, and calls that sleep until someone wakes them.
-/

namespace DemandPaging

open Machine

namespace Machine

/-- The process is not registered, it has no frame and no copy, and none of its pages is resident. -/
structure Gone (m : Machine) (p : UserProcess) : Prop where
  dead : m.process? p.pid = none
  cleared : m.Cleared p.pid
  invalid : ∀ page e, m.entryOf? p page = some e → e.valid = false

variable {m m' : Machine} {p : UserProcess}

/-- Whoever is gone and gets nothing stays gone. -/
theorem Fades.gone (h : m.Fades m' p) (hg : m.Gone p) : m'.Gone p where
  dead := h.dead
  cleared := ⟨fun f page ho => hg.cleared.unowned f page (h.owners f page ho),
    fun page => h.copies page (hg.cleared.uncopied page)⟩
  invalid page e he := by
    by_contra hv
    obtain ⟨f, hf⟩ := PageEntry.exists_frame? (Bool.not_eq_false _ ▸ hv)
    have ht : (m'.table p).translate? page = some f := by
      rw [translate?_table, he, Option.bind_some, hf]
    have hold := (h.stays page f ht).1
    rw [translate?_table] at hold
    obtain ⟨e', he', hf'⟩ := Option.bind_eq_some_iff.mp hold
    have hv' := PageEntry.valid_of_frame? hf'
    rw [hg.invalid page e' he'] at hv'
    contradiction

end Machine

/-- Nobody gets at a page of a process that is not registered. -/
theorem Action.run_resolve_of_dead {m : Machine} {p : UserProcess}
    (hdead : m.process? p.pid = none) (page : PageNumber) (kind : AccessKind) :
    (resolve p page kind).run m = .error (.error (.processExited p.pid)) m := by
  have hreg : m.kernel.registry.contains p.pid = false := by
    rw [Registry.contains, show m.kernel.registry.find? p.pid = none from hdead]
    rfl
  simp only [resolve, permittedEntry, EStateM.run_bind, EStateM.run_get, hreg, Bool.false_eq_true,
    if_false, run_fail]

/-! ## Requests for pages of a process -/

/-- Of the `length` bytes from `start` on, one at least lies in the address space. -/
def UserProcess.Meets (p : UserProcess) (start : VirtualAddress) (length : Nat) : Prop :=
  ∃ k < length, ∃ a, start.add? k = some a ∧ p.contains a.page = true

/-- The request asks for a page of the process. Copies do if one of their bytes lies in the address
space; a text of at most `max` bytes has a zero byte behind them. -/
def Request.Touches (p : UserProcess) : Request → Prop
  | fault _ => True
  | load _ => False
  | pin _ _ => True
  | read start length => p.Meets start length
  | write start bytes => p.Meets start bytes.length
  | text start max => p.Meets start (max + 1)

namespace UserProcess

variable {p : UserProcess} {start : VirtualAddress} {length : Nat}

/-- A range that has a byte in the address space starts there. -/
theorem contains_of_meets (h : p.Meets start length) :
    0 < length ∧ p.layout.contains start.page = true := by
  obtain ⟨k, hk, a, ha, hin⟩ := h
  have hle : start.toNat / pageSize ≤ a.toNat / pageSize := by
    rw [VirtualAddress.toNat_of_add? ha]
    exact Nat.div_le_div_right (Nat.le_add_right ..)
  rw [contains, Layout.contains, decide_eq_true_eq, PageNumber.toNat,
    VirtualAddress.toNat_page] at hin
  refine ⟨by omega, ?_⟩
  rw [Layout.contains, decide_eq_true_eq, PageNumber.toNat, VirtualAddress.toNat_page]
  exact Nat.lt_of_le_of_lt hle hin

/-- A copy that begins in the address space wants the page of its first byte. -/
theorem wanted?_copy {c : Call} {copy : Copy} (htasks : c.tasks = [.copy copy])
    (hdone : copy.done = 0) (hlength : 0 < copy.length)
    (hin : c.process.layout.contains copy.start.page = true) :
    c.wanted? = some (copy.start.page, copy.kind) := by
  have hturn : copy.turn c.process.layout = .piece (copy.pieceAt copy.start) := by
    rw [Copy.turn, if_neg (by omega), hdone, VirtualAddress.add?_zero]
    simp only [hin, if_true]
  simp only [Call.wanted?, htasks, hturn]
  rfl

/-- A text that begins in the address space has at least one byte to look at. -/
theorem textLength_pos (hin : p.layout.contains start.page = true) (max : Nat) :
    0 < Call.textLength p start max := by
  rw [Layout.contains, decide_eq_true_eq, PageNumber.toNat, VirtualAddress.toNat_page,
    Nat.div_lt_iff_lt_mul (by decide)] at hin
  rw [Call.textLength, numPages]
  omega

end UserProcess

/-- A request that touches a process begins with a page that it wants. -/
theorem Request.exists_wanted {p : UserProcess} {r : Request} (h : r.Touches p) :
    ∃ page kind, (r.toCall p).wanted? = some (page, kind) := by
  cases r with
  | fault page => exact ⟨_, _, if_pos (Nat.lt_succ_self _)⟩
  | load mode => exact h.elim
  | pin page kind => exact ⟨page, kind, rfl⟩
  | read start length =>
    obtain ⟨hlength, hin⟩ := UserProcess.contains_of_meets h
    exact ⟨_, _, UserProcess.wanted?_copy rfl rfl hlength hin⟩
  | write start bytes =>
    obtain ⟨hlength, hin⟩ := UserProcess.contains_of_meets h
    exact ⟨_, _, UserProcess.wanted?_copy rfl rfl hlength hin⟩
  | text start max =>
    obtain ⟨-, hin⟩ := UserProcess.contains_of_meets h
    exact ⟨_, _, UserProcess.wanted?_copy rfl rfl (UserProcess.textLength_pos hin max) hin⟩

namespace System

variable {s s' : System} {loose : List FrameNumber} {broken : List ProcessId} {mv : Move}
  {p : UserProcess}

/-! ## The end of a process -/

/-- **A teardown that ends leaves nothing of the process.** -/
theorem Turn.gone (ht : Turn s mv s') (h : s.Sound loose broken) (hb : s'.Backed)
    (hp : p ∈ s.processes) (htorn : s.torn? mv = some p.pid)
    (hends : ∀ v, (s.move mv).1 ≠ some (.violated v)) : s'.machine.Gone p := by
  obtain ⟨q, mem, hqp, orderly, hcleared, -⟩ := ht.of_torn htorn
  obtain rfl := h.machine.census.eq_of_pid mem hp hqp
  have cleared := hcleared hends
  have hdead : s'.machine.process? q.pid = none := by
    rw [orderly.registry, process?_without_self]
  refine ⟨hdead, cleared, fun page e he => ?_⟩
  by_contra hv
  -- the frame of a page that is still resident would be on record for the process
  obtain ⟨f, hf⟩ := PageEntry.exists_frame? (Bool.not_eq_false _ ▸ hv)
  refine cleared.unowned f page (hb q (ht.mem_processes mem) hdead page f ?_)
  rw [translate?_table, he, Option.bind_some, hf]

/-- A process that is gone stays gone along every run. -/
theorem Reachable.gone (h : Reachable HasRoom s s') (hs : s.Sound loose broken)
    (hp : p ∈ s.processes) (hg : s.machine.Gone p) :
    p ∈ s'.processes ∧ s'.machine.Gone p := by
  refine h.invariant_of_sound (P := fun t => p ∈ t.processes ∧ t.machine.Gone p) hs ⟨hp, hg⟩ ?_
  rintro t mv loose' broken' ht hroom ⟨hp', hg'⟩
  have hturn := turn ht hroom
  exact ⟨hturn.mem_processes hp', (hturn.fades ht hp' hg'.dead).gone hg'⟩

/-- A call of a process that is gone has no frame. -/
theorem Sound.frame?_of_gone (h : s.Sound loose broken) (hg : s.machine.Gone p) {c : Call}
    (hc : c ∈ s.calls) (hcp : c.process = p) : c.frame? = none := by
  by_contra hframe
  obtain ⟨f, hf⟩ := Option.ne_none_iff_exists'.mp hframe
  obtain ⟨i, hi, howner, -⟩ := (h.calls c hc).2.2 f hf
  rw [hcp] at howner
  exact hg.cleared.unowned f i.page (ownerOf?_eq_some.mpr ⟨i, hi, howner, rfl⟩)

/-- **Once dead, always dead.** Let a move tear a process down without a violation, in any system
that moves lead to from a machine that has just started, and let any moves follow. The process is
gone all along. No call of it has a frame. A call that wants a page of it is told so as soon as it
is awake, and so is every new call that touches it; the machine is as before but for the wake-up
that the call takes. -/
theorem exited_for_good {config : Config} {swap : Swap} {m : Machine}
    (hboot : Machine.boot config swap = .ok m) {s₀ : System}
    (h₀ : Reachable HasRoom (ofMachine m) s₀) (hroom : s₀.HasRoom mv) (hp : p ∈ s₀.processes)
    (htorn : s₀.torn? mv = some p.pid) (hends : ∀ v, (s₀.move mv).1 ≠ some (.violated v))
    (hs : Reachable HasRoom (s₀.after mv) s) :
    s.machine.Gone p ∧
    (∀ c ∈ s.calls, c.process = p → c.frame? = none ∧ ∀ page kind,
      c.wanted? = some (page, kind) → (∀ e, c.stage ≠ .undoing e) →
      c.isAsleep s.machine = false → ∃ m₁, c.Ready s.machine m₁ ∧
        c.step s.machine = (c.afterFailure (.error (.processExited p.pid)), m₁)) ∧
    ∀ r : Request, r.Touches p → (r.toCall p).step s.machine =
      (.finished (.failed (.processExited p.pid) (r.toCall p).copy?), s.machine) := by
  obtain ⟨loose₀, broken₀, hsound₀⟩ := h₀.sound (sound_boot hboot)
  obtain ⟨loose₁, hsound₁⟩ := (moved hsound₀ hroom).sound
  have hturn := turn hsound₀ hroom
  have hbacked := hturn.backed hsound₀ (h₀.backed hboot)
  have hgone₁ := hturn.gone hsound₀ hbacked hp htorn hends
  obtain ⟨-, hgone⟩ := hs.gone hsound₁ (hturn.mem_processes hp) hgone₁
  obtain ⟨loose, broken, hsound⟩ := hs.sound hsound₁
  refine ⟨hgone, fun c hc hcp => ?_, fun r hr => ?_⟩
  · have hframe := hsound.frame?_of_gone hgone hc hcp
    refine ⟨hframe, fun page kind hwanted hundo hawake => ?_⟩
    obtain ⟨m₁, hready, hstep⟩ := Call.exists_ready hwanted hframe hundo hawake
    have hdead : m₁.process? c.process.pid = none := by
      rw [hready.alike.process?, hcp, hgone.dead]
    rw [Action.run_resolve_of_dead hdead, hcp] at hstep
    exact ⟨m₁, hready, hstep⟩
  · obtain ⟨page, kind, hwanted⟩ := r.exists_wanted hr
    obtain ⟨hprocess, -, -⟩ := toCall_valid p r
    obtain ⟨hstage, hpurpose⟩ := toCall_begins p r
    have hstep := Call.step_of_seeking (m := s.machine) hwanted hstage
    rw [hprocess, Action.run_resolve_of_dead hgone.dead] at hstep
    rw [hstep, Call.afterSeek, Call.afterFailure, if_neg hpurpose]

/-- A system with one frame, which someone keeps pinned, and a second process that waits for it. -/
def waiting : System := holding.run
  [.spawn (.zeroes "second" 1) [] .demand, .step 0, .request 1 (.fault ⟨0⟩), .step 0]

/-- The second process was torn down while it waited, and then the frame was let go. -/
def awakened : System := (waiting.after (.release 1)).after (.drop 0)

/-- The fault that is awake now is told that its process is gone, and takes no frame. -/
theorem exited_for_good_awakened : ∃ p c m₁, awakened.calls = [c] ∧ awakened.machine.Gone p ∧
    c.Ready awakened.machine m₁ ∧
    c.step awakened.machine = (.finished (.failed (.processExited p.pid) none), m₁) := by
  have hreach : Reachable HasRoom (ofMachine (fresh 1)) waiting :=
    (Reachable.start.run (by decide)).run (by decide)
  have hends : ∀ v, (waiting.move (.release 1)).1 ≠ some (.violated v) := fun _ => nofun
  let p := waiting.processes.getLast (List.cons_ne_nil _ _)
  let c := awakened.calls.head (List.cons_ne_nil _ _)
  obtain ⟨hgone, hcalls, -⟩ := @exited_for_good awakened (.release 1) p ⟨1, 1, true⟩ (.empty none)
    (fresh 1) rfl waiting hreach trivial (List.getLast_mem _) rfl hends
    (.move (.drop 0) .start trivial)
  obtain ⟨m₁, hready, hstep⟩ := (hcalls c (List.head_mem _) rfl).2 ⟨0⟩ .read rfl (fun _ => nofun) rfl
  exact ⟨p, c, m₁, rfl, hgone, hready, hstep⟩

end System

end DemandPaging
