import DemandPaging.Proofs.Placement
import DemandPaging.Proofs.Readback

/-!
# Calls that need one page

A fault, and a read or write inside one page, need one page only (`Request.Single`). When nothing else
happens meanwhile, such a call is two actions: it gets at its page (`Action.resolve`), uses it and lets
go of it (`Request.visit`). This holds of a call that has just been made and of one that was woken
(`Call.run_single`, `Call.run_single_woken`).
-/

namespace DemandPaging

open Machine

/-! ## Requests for one page -/

/-- A write inside one page is one piece. -/
theorem UserProcess.Spans.turn_ofWrite {p : UserProcess} {a : VirtualAddress} {bytes : Bytes}
    (h : p.Spans a bytes.length) :
    (Copy.ofWrite a bytes).turn p.layout = .piece ⟨a.page, a.offset, bytes.length⟩ := h.turn

namespace Request

/-- The request needs one page of `p`: to bring it in, or to read or write inside it. -/
inductive Single (p : UserProcess) : Request → PageNumber → Prop
  | fault {page : PageNumber} (contains : p.contains page = true) : Single p (.fault page) page
  | read {a : VirtualAddress} {n : Nat} (spans : p.Spans a n) : Single p (.read a n) a.page
  | write {a : VirtualAddress} {bytes : Bytes} (spans : p.Spans a bytes.length) :
    Single p (.write a bytes) a.page

/-- How the request accesses its pages. -/
def kind : Request → AccessKind
  | .pin _ kind => kind
  | .write .. => .write
  | _ => .read

/-- The copy that a request for one page makes, as one piece. -/
def copy? : Request → Option (Copy × CopyPiece)
  | .read a n => some (.ofRead a n, ⟨a.page, a.offset, n⟩)
  | .write a bytes => some (.ofWrite a bytes, ⟨a.page, a.offset, bytes.length⟩)
  | _ => none

/-- Copy what a request for one page copies, from or to the pinned frame `f`. -/
def transfer (p : UserProcess) (r : Request) (f : FrameNumber) : Action Answer :=
  match r.copy? with
  | none => return .done
  | some (c, piece) => do return .copied (← Action.transfer p c piece f)

/-- Use the page that lies in the pinned frame `f`, and let go of it. -/
def visit (p : UserProcess) (r : Request) (f : FrameNumber) : Action Answer := do
  let a ← r.transfer p f
  Action.unpin f
  return a

/-- How the call ends that has used its page. -/
def left : EStateM.Result (Stop VmError) Machine Answer → Progress × Machine
  | .ok a m => (.finished (.returned a), m)
  | .error stop m => (.finished (.ofStop stop), m)

/-- Where a call for one page is after its attempt to get at the page, when nothing else happens. -/
def served (p : UserProcess) (r : Request) :
    EStateM.Result (Stop VmError) Machine Grant → Progress × Machine
  | .ok (.pinned f) m => left ((r.visit p f).run m)
  | .ok (.queued t) m => (.ongoing { r.toCall p with stage := .waiting t }, m)
  | .error stop m => ((r.toCall p).afterFailure stop, m)

/-- It is one page. -/
theorem Single.eq {p : UserProcess} {r : Request} {page page' : PageNumber} (h : r.Single p page)
    (h' : r.Single p page') : page = page' := by
  cases h <;> cases h' <;> rfl

/-- The request wants its page. -/
theorem Single.wanted? {p : UserProcess} {r : Request} {page : PageNumber} (h : r.Single p page) :
    (r.toCall p).wanted? = some (page, r.kind) := by
  cases h with
  | @fault page contains =>
    simp only [toCall, Call.fault, Call.ofTask, Call.wanted?, Nat.lt_succ_self, if_true, kind]
    rw [PageNumber.ofNat_toNat]
  | read spans => exact Call.wanted?_of_ofRead spans rfl
  | write spans =>
    simp only [toCall, Call.write, Call.ofTask, Call.wanted?, spans.turn_ofWrite, kind]
    rfl

end Request

/-! ## The page is used -/

namespace Action

variable {m m' : Machine} {p : UserProcess} {c c' : Copy} {piece : CopyPiece} {f : FrameNumber}
  {stop : Stop VmError} {u : Unit}

theorem violation_of_unpin (h : (unpin f).run m = .error stop m') : ∃ v, stop = .violation v := by
  obtain ⟨v, -, hv, -⟩ := run_onFrames_eq_error.mp h
  exact ⟨v, hv⟩

theorem run_ofExcept_eq_ok {α : Type} {x : Except Violation α} {a : α} :
    (ofExcept x).run m = .ok a m' ↔ x = .ok a ∧ m = m' := by
  cases x <;> simp [ofExcept]

theorem run_ofExcept_eq_error {α : Type} {x : Except Violation α} :
    (ofExcept x).run m = .error stop m' ↔ ∃ v, x = .error v ∧ stop = .violation v ∧ m = m' := by
  cases x <;> simp [ofExcept, eq_comm]

/-- A copy of one piece changes the bytes of the frame, if it writes, and marks the page. -/
theorem of_run_transfer (h : (transfer p c piece f).run m = .ok c' m') :
    c'.length = c.length ∧ c'.done = c.done + piece.amount ∧
      ∃ m₁, m' = m₁.withTable p ((m.table p).markAccess piece.page c.kind.isWrite) ∧
        (c.kind = .read ∧ m₁ = m ∨ c.kind = .write ∧
          ∃ b, m.kernel.memory.write f piece.offset.toNat (c.outgoing piece) = .ok b ∧
            m₁ = m.withMemory b) := by
  unfold transfer at h
  cases hkind : c.kind with
  | read =>
    simp only [hkind, run_bind_eq_ok, EStateM.run_get, run_ofExcept_eq_ok, run_onTable] at h
    obtain ⟨m₁, m₂, heq, bs, m₃, ⟨-, rfl⟩, c₁, m₄, hread, u, m₅, htable, h⟩ := h
    cases heq
    cases hread
    cases htable
    cases h
    exact ⟨rfl, rfl, m, rfl, .inl ⟨rfl, rfl⟩⟩
  | write =>
    simp only [hkind, run_bind_eq_ok, run_onMemory_eq_ok, run_onTable] at h
    obtain ⟨u, m₁, ⟨b, hb, rfl⟩, c₁, m₂, hwrite, u', m₃, htable, h⟩ := h
    cases hwrite
    cases htable
    cases h
    exact ⟨rfl, rfl, _, rfl, .inr ⟨rfl, b, hb, rfl⟩⟩

theorem violation_of_transfer (h : (transfer p c piece f).run m = .error stop m') :
    ∃ v, stop = .violation v := by
  unfold transfer at h
  cases hkind : c.kind with
  | read =>
    simp only [hkind, run_bind_eq_error, EStateM.run_get, run_ofExcept_eq_error, run_onTable,
      EStateM.run_pure, reduceCtorEq, and_false, exists_false, or_false, false_or] at h
    obtain ⟨-, -, -, v, -, rfl, -⟩ := h
    exact ⟨v, rfl⟩
  | write =>
    simp only [hkind, run_bind_eq_error, EStateM.run_get, run_ofExcept_eq_error, run_onTable, onMemory,
      EStateM.run_set, EStateM.run_pure, reduceCtorEq, and_false, exists_false, or_false,
      false_or] at h
    obtain ⟨-, -, -, v, -, rfl, -⟩ := h
    exact ⟨v, rfl⟩

/-- Nobody has woken a call that has just queued up. -/
theorem park?_queueUp (m : Machine) (p : UserProcess) (page : PageNumber) {t : Ticket}
    (h : (queueUp p page).run m = .ok t m') : m'.waiters.park? t = none := by
  rw [run_queueUp] at h
  cases h
  cases hpark : (m.waiters.addParker.enqueue m.waiters.parkers.size).park?
      m.waiters.parkers.size with
  | none => exact hpark
  | some room =>
    obtain ⟨hnotified, -⟩ := WaitRoom.park?_eq_some.mp hpark
    simp [WaitRoom.enqueue, WaitRoom.addParker, Parker.new] at hnotified

theorem park?_of_queued {p : UserProcess} {page : PageNumber} {kind : AccessKind} {t : Ticket}
    (h : (resolve p page kind).run m = .ok (.queued t) m') : m'.waiters.park? t = none := by
  simp only [resolve, run_bind_eq_ok] at h
  obtain ⟨e, m₁, -, h⟩ := h
  split at h
  · simp only [run_bind_eq_ok] at h
    obtain ⟨u, m₂, -, u', m₃, -, h⟩ := h
    cases h
  · simp only [serveMiss, run_bind_eq_ok] at h
    obtain ⟨u, m₂, -, u', m₃, -, g, m₄, -, h⟩ := h
    cases g with
    | none =>
      simp only [run_bind_eq_ok] at h
      obtain ⟨t', m₅, hqueue, h⟩ := h
      cases h
      exact park?_queueUp m₄ p page hqueue
    | some g =>
      simp only [run_bind_eq_ok] at h
      obtain ⟨u'', m₅, -, h⟩ := h
      cases h

end Action

namespace Call

variable {m m' : Machine} {p : UserProcess} {r : Request} {page : PageNumber} {f : FrameNumber}

theorem step_of_run {c : Call} {pr : Progress} (h : c.proceed.run m = .ok pr m') :
    c.step m = (pr, m') := by
  rw [step, h]

theorem step_of_violation {c : Call} {v : Violation} (h : c.proceed.run m = .error (.violation v) m') :
    c.step m = (.finished (.violated v), m') := by
  rw [step, h]
  rfl

/-- When all bytes are copied the task is done. -/
theorem begin_of_copied {c : Call} {copy : Copy} {rest : List Task} (htasks : c.tasks = .copy copy :: rest)
    (hdone : copy.length ≤ copy.done) : c.begin = c.endTask (.copied copy) rest := by
  have hcomplete : copy.turn c.process.layout = .complete := if_pos hdone
  have hall : ¬ (c.purpose = .spawn ∧ copy.done < copy.length) := fun h => Nat.not_lt.mpr hdone h.2
  simp only [begin, htasks, hcomplete, endCopy, if_neg hall]

/-- A call that has copied all bytes hands over the copy. -/
theorem step_of_copied {copy : Copy} (hdone : copy.length ≤ copy.done) (m : Machine) :
    step ⟨p, .plain, [.copy copy], .seeking⟩ m = (.finished (.returned (.copied copy)), m) := by
  refine step_of_run ?_
  rw [proceed]
  dsimp only
  rw [begin_of_copied rfl hdone]
  rfl

theorem runFor_visit_fault (page : PageNumber) (k : Nat) :
    runFor (k + 3) { fault p page with stage := .holding f } m =
      Request.left (((Request.fault page).visit p f).run m) := by
  have hrun : (proceed { fault p page with stage := .holding f }).run m = (do
      Action.unpin f
      return .ongoing ⟨p, .plain, [.touch (page.toNat + 1) (page.toNat + 1)], .seeking⟩ :
        Action Progress).run m := rfl
  have hvisit : ((Request.fault page).visit p f).run m = (do
      Action.unpin f
      return .done : Action Answer).run m := rfl
  rw [EStateM.run_bind] at hrun hvisit
  rw [hvisit]
  cases hunpin : (Action.unpin f).run m with
  | error stop m₁ =>
    rw [hunpin] at hrun
    obtain ⟨v, rfl⟩ := Action.violation_of_unpin hunpin
    exact runFor_of_finished (step_of_violation hrun) _
  | ok u m₁ =>
    rw [hunpin] at hrun
    rw [runFor_of_ongoing (step_of_run hrun) rfl]
    have hend : begin ⟨p, .plain, [.touch (page.toNat + 1) (page.toNat + 1)], .seeking⟩ =
        pure (.finished (.returned .done)) := by
      simp only [begin, Nat.lt_irrefl, if_false]
      rfl
    have hdone : (proceed ⟨p, .plain, [.touch (page.toNat + 1) (page.toNat + 1)], .seeking⟩).run m₁ =
        .ok (.finished (.returned .done)) m₁ := by
      rw [proceed]
      dsimp only
      rw [hend, EStateM.run_pure]
    exact runFor_of_finished (step_of_run hdone) _

theorem runFor_visit_copy {c : Copy} {piece : CopyPiece} (hturn : c.turn p.layout = .piece piece)
    (hlength : c.length = c.done + piece.amount) (k : Nat) :
    runFor (k + 3) ⟨p, .plain, [.copy c], .holding f⟩ m = Request.left ((do
      let copy ← Action.transfer p c piece f
      Action.unpin f
      return .copied copy : Action Answer).run m) := by
  have hrun : (proceed ⟨p, .plain, [.copy c], .holding f⟩).run m = (do
      let copy ← Action.transfer p c piece f
      return .ongoing ⟨p, .plain, [.copy copy], .leaving f⟩ : Action Progress).run m := by
    rw [proceed]
    simp only [use, hturn]
  rw [EStateM.run_bind] at hrun ⊢
  cases htransfer : (Action.transfer p c piece f).run m with
  | error stop m₁ =>
    rw [htransfer] at hrun
    obtain ⟨v, rfl⟩ := Action.violation_of_transfer htransfer
    exact runFor_of_finished (step_of_violation hrun) _
  | ok copy m₁ =>
    rw [htransfer] at hrun
    rw [runFor_of_ongoing (step_of_run hrun) rfl]
    have hleave : (proceed ⟨p, .plain, [.copy copy], .leaving f⟩).run m₁ = (do
        Action.unpin f
        return .ongoing ⟨p, .plain, [.copy copy], .seeking⟩ : Action Progress).run m₁ := rfl
    dsimp only
    rw [EStateM.run_bind] at hleave ⊢
    cases hunpin : (Action.unpin f).run m₁ with
    | error stop m₂ =>
      rw [hunpin] at hleave
      obtain ⟨v, rfl⟩ := Action.violation_of_unpin hunpin
      exact runFor_of_finished (step_of_violation hleave) _
    | ok u m₂ =>
      rw [hunpin] at hleave
      rw [runFor_of_ongoing (step_of_run hleave) rfl]
      obtain ⟨hlength', hdone', -⟩ := Action.of_run_transfer htransfer
      exact runFor_of_finished (step_of_copied (by omega) m₂) _

/-- A call that holds its only page uses it and ends. -/
theorem runFor_visit (h : r.Single p page) (k : Nat) :
    runFor (k + 3) { r.toCall p with stage := .holding f } m =
      Request.left ((r.visit p f).run m) := by
  cases h with
  | fault contains => exact runFor_visit_fault page k
  | @read a n spans =>
    have hvisit : (Request.read a n).visit p f = (do
        let copy ← Action.transfer p (.ofRead a n) ⟨a.page, a.offset, n⟩ f
        Action.unpin f
        return .copied copy) := by
      simp only [Request.visit, Request.transfer, Request.copy?, bind_assoc, pure_bind]
    rw [hvisit]
    exact runFor_visit_copy spans.turn (Nat.zero_add n).symm k
  | @write a bytes spans =>
    have hvisit : (Request.write a bytes).visit p f = (do
        let copy ← Action.transfer p (.ofWrite a bytes) ⟨a.page, a.offset, bytes.length⟩ f
        Action.unpin f
        return .copied copy) := by
      simp only [Request.visit, Request.transfer, Request.copy?, bind_assoc, pure_bind]
    rw [hvisit]
    exact runFor_visit_copy spans.turn_ofWrite (Nat.zero_add _).symm k

/-- A call for one page that has made its attempt runs on until it ends or falls asleep. -/
theorem runFor_attempt (h : r.Single p page) (stage : Stage) {m₁ : Machine}
    (hstep : step { r.toCall p with stage } m =
      afterSeek { r.toCall p with stage } ((Action.resolve p page r.kind).run m₁)) (k : Nat) :
    runFor (k + 4) { r.toCall p with stage } m =
      r.served p ((Action.resolve p page r.kind).run m₁) := by
  cases hresolve : (Action.resolve p page r.kind).run m₁ with
  | error stop m' =>
    have hfinished : ∃ o, afterFailure { r.toCall p with stage } stop = .finished o ∧
        (r.toCall p).afterFailure stop = .finished o := by
      cases stop <;> cases h <;> exact ⟨_, rfl, rfl⟩
    obtain ⟨o, hc, ho⟩ := hfinished
    rw [hresolve, afterSeek, hc] at hstep
    rw [runFor_of_finished hstep, Request.served, ho]
  | ok grant m' =>
    rw [hresolve] at hstep
    cases grant with
    | pinned f =>
      rw [runFor_of_ongoing hstep rfl]
      exact runFor_visit h k
    | queued t =>
      have hasleep : isAsleep { r.toCall p with stage := .waiting t } m' = true :=
        Option.isNone_iff_eq_none.mpr (Action.park?_of_queued hresolve)
      rw [runFor, hstep]
      simp only [afterSeek, hasleep, if_true, Request.served]

theorem exists_stepsLeft (h : r.Single p page) : ∃ k, (r.toCall p).stepsLeft = k + 4 := by
  cases h <;> exact ⟨_, rfl⟩

/-- **A call for one page** that has just been made gets at its page and uses it. -/
theorem run_single (h : r.Single p page) (m : Machine) :
    (r.toCall p).run m = r.served p ((Action.resolve p page r.kind).run m) := by
  obtain ⟨k, hk⟩ := exists_stepsLeft h
  have hstep : (r.toCall p).step m =
      (r.toCall p).afterSeek ((Action.resolve p page r.kind).run m) := by
    cases h <;> exact step_of_seeking (Request.Single.wanted? (by constructor; assumption)) rfl
  rw [run, hk]
  exact runFor_attempt h (r.toCall p).stage hstep k

/-- A call for one page that returns has got at its page and has used it. -/
theorem of_run_single (h : r.Single p page) {a : Answer}
    (hrun : (r.toCall p).run m = (.finished (.returned a), m')) : ∃ f m₁,
      (Action.resolve p page r.kind).run m = .ok (.pinned f) m₁ ∧
        (r.visit p f).run m₁ = .ok a m' := by
  rw [run_single h] at hrun
  cases hresolve : (Action.resolve p page r.kind).run m with
  | error stop m₁ =>
    rw [hresolve] at hrun
    cases h <;> cases stop <;> cases hrun
  | ok grant m₁ =>
    rw [hresolve] at hrun
    cases grant with
    | queued t => cases hrun
    | pinned f =>
      rw [Request.served] at hrun
      cases hvisit : (r.visit p f).run m₁ with
      | error stop m₂ =>
        rw [hvisit] at hrun
        cases stop <;> cases hrun
      | ok a' m₂ =>
        rw [hvisit] at hrun
        cases hrun
        exact ⟨f, m₁, rfl, hvisit⟩

/-- A call for one page that was woken does the same, once it has taken the wake-up. -/
theorem run_single_woken (h : r.Single p page) {t : Ticket} {room : WaitRoom}
    (hpark : m.waiters.park? t = some room) :
    run { r.toCall p with stage := .waiting t } m = r.served p
      ((Action.resolve p page r.kind).run ((m.withFrames { m.kernel.frames with waiters := room }).noted
        (.woken p.pid page))) := by
  obtain ⟨k, hk⟩ := exists_stepsLeft h
  have hwanted : wanted? { r.toCall p with stage := .waiting t } = some (page, r.kind) := h.wanted?
  have hstep : step { r.toCall p with stage := .waiting t } m =
      afterSeek { r.toCall p with stage := .waiting t } ((Action.resolve p page r.kind).run
        ((m.withFrames { m.kernel.frames with waiters := room }).noted (.woken p.pid page))) := by
    cases h <;> exact step_of_woken hwanted rfl hpark
  rw [run]
  exact (congrArg (fun n => runFor n _ m) hk).trans (runFor_attempt h (.waiting t) hstep k)

end Call

end DemandPaging
