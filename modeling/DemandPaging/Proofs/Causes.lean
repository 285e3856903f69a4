import DemandPaging.Proofs.Completions
import DemandPaging.Proofs.Promises

/-!
# What calls fail with

A call fails with an error that it meets while pages are brought in and used, or with an error that one
of its tasks is there for. What a step of a call leads to is `Call.Leads`: no task that is there to make
the call fail gets lost on the way, and a call that returns a value has none of them left. So the tasks
that a call begins with tell how it may end (`System.CompletesAmid.leads`).
-/

namespace DemandPaging

open DemandPaging.Action

/-- Errors that come up while pages are brought in and used. The others are found before that: gaps
between sections, and arguments that are too long. -/
def VmError.OfWork : VmError → Prop
  | .argumentsTooLong _ | .fragmentedExecutable .. => False
  | _ => True

/-- The content of a page is missing because the page is, or the executable does not provide it. -/
theorem UserProcess.cause_of_initialContent {p : UserProcess} {page : PageNumber} {e : VmError}
    (h : p.initialContent page = .error (.error e)) :
    e = .segmentationFault p.pid page ∨ ∃ err, e = .load err := by
  cases hsource : p.layout.source? page with
  | none =>
    rw [initialContent, hsource] at h
    cases h
    exact Or.inl rfl
  | some source => exact Or.inr (exists_load_of_error hsource h)

namespace Machine

theorem bears_true : Bears fun _ => True :=
  ⟨fun _ _ _ => trivial, fun _ _ _ => trivial, fun _ _ _ => trivial, fun _ _ _ => trivial,
    fun _ _ _ => trivial, fun _ _ _ _ _ _ => trivial, fun _ _ _ _ _ _ => trivial⟩

theorem admits_ofWork : Admits (fun _ => True) VmError.OfWork :=
  ⟨fun _ _ _ _ _ _ => trivial, fun _ _ _ _ _ => trivial, fun _ => trivial⟩

end Machine

/-- An attempt to get at a page fails at work. -/
theorem Action.ofWork_of_resolve {p : UserProcess} {page : PageNumber} {kind : AccessKind}
    {m m' : Machine} {e : VmError} (h : (resolve p page kind).run m = .error (.error e) m') :
    e.OfWork := by
  have hcontent : ∀ err, p.initialContent page = .error (.error err) → err.OfWork := by
    intro err herr
    rcases UserProcess.cause_of_initialContent herr with rfl | ⟨_, rfl⟩ <;> trivial
  have hstands := Machine.bears_true.stands_resolve Machine.admits_ofWork hcontent trivial trivial
    trivial kind m trivial
  rw [h] at hstands
  exact hstands.2

/-- The error of a task that is there to make its call fail. -/
def Task.refusal? : Task → Option VmError
  | .refuse e => some e
  | _ => none

namespace Call

variable {c : Call} {E : VmError → Prop} {rest : List Task} {m : Machine}

/-- The errors that the call is yet to fail with, if it gets so far. -/
def refusals (c : Call) : List VmError := c.tasks.filterMap Task.refusal?

/-- What the call may fail with if it meets errors in `E`: one of them, or one that its tasks are there
for, or the one that it has failed with already. -/
def Blames (c : Call) (E : VmError → Prop) (e : VmError) : Prop :=
  E e ∨ e ∈ c.refusals ∨ c.stage = .undoing e

/-- What a step of the call may lead to if it meets errors in `E`. -/
def Leads (c : Call) (E : VmError → Prop) : Progress → Prop
  | .ongoing c' => c'.refusals = c.refusals ∧ ∀ e, c'.stage = .undoing e → c.Blames E e
  | .finished (.returned _) => c.refusals = []
  | .finished (.failed e _) => c.Blames E e
  | .finished (.violated _) => True

/-- The action ends as a step of the call may. -/
abbrev Complies (c : Call) (E : VmError → Prop) (x : Action Progress) : Prop :=
  Promises (fun _ => True) (c.Leads E) (c.Blames E) x

theorem refusals_of_cons {t : Task} (ht : c.tasks = t :: rest) (hnone : t.refusal? = none) :
    c.refusals = rest.filterMap Task.refusal? := by
  rw [refusals, ht, List.filterMap_cons_none hnone]

/-! ## Steps without an attempt -/

theorem complies_conclude (hnone : c.refusals = []) (a : Answer) : c.Complies E (c.conclude a) := by
  unfold conclude
  split
  · dsimp only
    split
    · exact promises_violate _
    · exact (Machine.bears_true.stands_note _).bind fun _ => promises_pure hnone
  · exact promises_pure hnone
  · exact promises_pure hnone

theorem complies_endTask (hrest : c.refusals = rest.filterMap Task.refusal?) (a : Answer) :
    c.Complies E (c.endTask a rest) := by
  unfold endTask
  split
  · exact complies_conclude hrest a
  · exact promises_pure ⟨hrest.symm, fun _ => nofun⟩

theorem complies_transfer (copy : Copy) (piece : CopyPiece) (f : FrameNumber)
    (hrest : c.refusals = rest.filterMap Task.refusal?) :
    c.Complies E (do
      let copy' ← transfer c.process copy piece f
      return .ongoing { c with tasks := .copy copy' :: rest, stage := .leaving f }) := by
  refine Promises.bind ?_ fun copy' => promises_pure ⟨hrest.symm, fun _ => nofun⟩
  have htable := Machine.bears_true.stands_onTable (E := c.Blames E) c.process
    (·.markAccess piece.page copy.kind.isWrite)
  unfold transfer
  cases hkind : copy.kind with
  | read =>
    exact promises_get_bind_of_all fun _ => (stands_ofExcept _).bind fun _ =>
      (stands_pure _).bind fun _ => (hkind ▸ htable).bind fun _ => stands_pure _
  | write =>
    exact (Machine.bears_true.stands_onMemory _).bind fun _ => (stands_pure _).bind fun _ =>
      (hkind ▸ htable).bind fun _ => stands_pure _

theorem complies_use (f : FrameNumber) : c.Complies E (c.use f) := by
  unfold use
  split
  · next ht =>
    exact (Machine.bears_true.stands_onFrames _).bind fun _ =>
      promises_pure ⟨(refusals_of_cons ht rfl).symm, fun _ => nofun⟩
  · next ht => exact complies_endTask (refusals_of_cons ht rfl) _
  · next ht =>
    split
    · exact complies_transfer _ _ f (refusals_of_cons ht rfl)
    · exact promises_pure ⟨rfl, fun _ => nofun⟩
  · exact promises_pure ⟨rfl, fun _ => nofun⟩

theorem stands_tearDown (p : UserProcess) : Stands (fun _ => True) E (tearDown p) := by
  have hgiveBack : ∀ owned, Stands (fun _ => True) E (giveBack p owned) := by
    intro owned
    induction owned with
    | nil => exact stands_pure _
    | cons x rest ih =>
      exact (Machine.bears_true.stands_onTable p _).bind fun _ =>
        (Machine.bears_true.stands_release _).bind fun _ =>
          (Machine.bears_true.stands_onFrames _).bind fun _ => ih
  exact (stands_modify fun _ _ => trivial).bind fun _ => promises_get_bind_of_all fun _ =>
    (hgiveBack _).bind fun _ => promises_get_bind_of_all fun _ =>
      (stands_modify fun _ _ => trivial).bind fun _ => Machine.bears_true.stands_note _

section Met

variable (hfault : ∀ pid page, E (.segmentationFault pid page))
include hfault

theorem complies_endCopy (hrest : c.refusals = rest.filterMap Task.refusal?) (copy : Copy) :
    c.Complies E (c.endCopy copy rest) := by
  unfold endCopy
  split
  · exact promises_fail (Or.inl (hfault _ _))
  · exact complies_endTask hrest _

variable (hmemory : ∀ needed available, E (.insufficientMemory needed available))
include hmemory

/-- A call that wants no page goes on or ends without an attempt. -/
theorem complies_begin (hwanted : c.wanted? = none) : c.Complies E c.begin := by
  unfold wanted? at hwanted
  unfold begin
  split
  · next ht => exact complies_conclude (by rw [refusals, ht, List.filterMap_nil]) .done
  · next mode rest ht =>
    have hrest := refusals_of_cons ht rfl
    unfold beginLoad
    split
    · exact (Machine.bears_true.stands_note _).bind fun _ => complies_endTask hrest _
    · refine promises_get_bind_of_all fun m => ?_
      dsimp only
      split
      · exact (Machine.bears_true.stands_note _).bind fun _ =>
          promises_fail (Or.inl (hmemory _ _))
      · exact promises_pure ⟨hrest.symm, fun _ => nofun⟩
  · next e rest ht =>
    have hmem : e ∈ c.refusals := by
      rw [refusals, ht]
      exact List.mem_filterMap.mpr ⟨_, List.mem_cons_self, rfl⟩
    exact promises_fail (Or.inr (Or.inl hmem))
  · next ht =>
    split
    · next hlt => simp only [ht, hlt, if_true, reduceCtorEq] at hwanted
    · exact complies_endTask (refusals_of_cons ht rfl) _
  · next ht => simp only [ht, reduceCtorEq] at hwanted
  · next ht =>
    have hrest := refusals_of_cons ht rfl
    split
    · next hturn => simp only [ht, hturn, reduceCtorEq] at hwanted
    · exact complies_endCopy hfault hrest _
    · exact (Machine.bears_true.stands_note _).bind fun _ => complies_endCopy hfault hrest _

omit hfault hmemory in
theorem leads_afterFailure {e : VmError} (h : c.Blames E e) :
    c.Leads E (c.afterFailure (.error e)) := by
  dsimp only [afterFailure]
  split
  · refine ⟨rfl, fun e' he' => ?_⟩
    cases he'
    exact h
  · exact h

omit hfault hmemory in
theorem leads_step_of_complies (h : c.Complies E c.proceed) : c.Leads E (c.step m).1 := by
  have hend := h m trivial
  unfold step
  cases hrun : c.proceed.run m with
  | ok pr m' =>
    rw [hrun] at hend
    exact hend.2
  | error stop m' =>
    rw [hrun] at hend
    cases stop with
    | violation v => trivial
    | error e => exact leads_afterFailure hend.2

omit hfault hmemory in
theorem leads_afterSeek {r : EStateM.Result (Stop VmError) Machine Grant}
    (h : ∀ e m', r = .error (.error e) m' → E e) : c.Leads E (c.afterSeek r).1 := by
  cases r with
  | ok g m' => cases g <;> exact ⟨rfl, fun _ => nofun⟩
  | error stop m' =>
    cases stop with
    | violation v => trivial
    | error e => exact leads_afterFailure (Or.inl (h e m' rfl))

/-- **What a step of a call leads to**, if the errors of its attempts are in `E`. -/
theorem leads_step (hattempt : ∀ m₁ page kind e m', c.Ready m m₁ → c.wanted? = some (page, kind) →
    (resolve c.process page kind).run m₁ = .error (.error e) m' → E e) :
    c.Leads E (c.step m).1 := by
  cases hstage : c.stage with
  | seeking =>
    cases hwanted : c.wanted? with
    | some w =>
      rw [step_of_seeking hwanted hstage]
      exact leads_afterSeek fun e m' => hattempt m w.1 w.2 e m' (.seeking hstage) hwanted
    | none =>
      refine leads_step_of_complies ?_
      rw [proceed, hstage]
      exact complies_begin hfault hmemory hwanted
  | waiting t =>
    cases hpark : m.waiters.park? t with
    | none =>
      rw [step_of_asleep hstage hpark]
      exact ⟨rfl, fun _ he => Or.inr (Or.inr he)⟩
    | some room =>
      cases hwanted : c.wanted? with
      | some w =>
        rw [step_of_woken hwanted hstage hpark]
        exact leads_afterSeek fun e m' => hattempt _ w.1 w.2 e m' (.woken hstage hpark) hwanted
      | none =>
        refine leads_step_of_complies ?_
        rw [proceed, hstage]
        refine (Machine.bears_true.stands_onFrames _).bind fun woken => ?_
        simp only [hwanted]
        split
        · refine promises_pure ⟨rfl, fun e he => ?_⟩
          cases he
        · exact promises_pure ⟨rfl, fun _ he => Or.inr (Or.inr he)⟩
  | holding f =>
    refine leads_step_of_complies ?_
    rw [proceed, hstage]
    exact complies_use f
  | leaving f =>
    refine leads_step_of_complies ?_
    rw [proceed, hstage]
    refine (Machine.bears_true.stands_onFrames _).bind fun _ => promises_pure ⟨rfl, fun e he => ?_⟩
    cases he
  | undoing e =>
    refine leads_step_of_complies ?_
    rw [proceed, hstage]
    exact (Machine.bears_true.stands_note _).bind fun _ => (stands_tearDown _).bind fun _ =>
      promises_pure (Or.inr (Or.inr hstage))

end Met

/-- Whatever the machine is, what a call meets are errors of work. -/
theorem leads_step_ofWork (c : Call) (m : Machine) : c.Leads VmError.OfWork (c.step m).1 :=
  leads_step (fun _ _ => trivial) (fun _ _ => trivial) fun _ _ _ _ _ _ _ hrun =>
    ofWork_of_resolve hrun

/-- What a call may end with after a step it might have ended with before. -/
theorem Leads.of_ongoing {c' : Call} (h : c.Leads E (.ongoing c')) {o : Outcome}
    (ho : c'.Leads E (.finished o)) : c.Leads E (.finished o) := by
  obtain ⟨hrefusals, hstage⟩ := h
  cases o with
  | returned a => exact hrefusals.symm.trans ho
  | violated v => trivial
  | failed e copied =>
    rcases ho with hmet | hmem | hundo
    · exact Or.inl hmet
    · exact Or.inr (Or.inl (hrefusals ▸ hmem))
    · exact hstage e hundo

/-- **What a call leads to** while nothing else happens. -/
theorem leads_of_runFor {m' : Machine} {n : Nat} {o : Outcome}
    (hrun : c.runFor n m = (.finished o, m')) : c.Leads VmError.OfWork (.finished o) := by
  induction n generalizing c m with
  | zero => cases hrun
  | succ n ih =>
    have hstep := c.leads_step_ofWork m
    rw [runFor] at hrun
    split at hrun
    · next hfinished =>
      cases hrun
      rwa [hfinished] at hstep
    · next hongoing =>
      split at hrun
      · cases hrun
      · rw [hongoing] at hstep
        exact hstep.of_ongoing (ih hrun)

/-- The errors that the call has failed with, or that its tasks are there for, are in `E`. -/
structure Confined (c : Call) (E : VmError → Prop) : Prop where
  stage : ∀ e, c.stage = .undoing e → E e
  refusals : ∀ e ∈ c.refusals, E e

theorem Confined.of_blames (h : c.Confined E) {e : VmError} (he : c.Blames E e) : E e := by
  rcases he with hmet | hmem | hundo
  · exact hmet
  · exact h.refusals e hmem
  · exact h.stage e hundo

/-- A call that meets only errors in `E` stays confined to them. -/
theorem Confined.of_leads {c' : Call} (h : c.Confined E) (hleads : c.Leads E (.ongoing c')) :
    c'.Confined E where
  stage e he := h.of_blames (hleads.2 e he)
  refusals e he := h.refusals e (hleads.1 ▸ he)

/-- A call that has not failed yet fails with an error that it meets, or that its tasks are there
for. -/
theorem Leads.mem_refusals {e : VmError} {copied : Option Copy}
    (h : c.Leads E (.finished (.failed e copied))) (hstage : c.stage = .seeking) (he : ¬ E e) :
    e ∈ c.refusals := by
  rcases h with hmet | hmem | hundo
  · exact absurd hmet he
  · exact hmem
  · cases hstage.symm.trans hundo

end Call

namespace System

variable {s s' : System} {allowed : System → Move → Prop} {i : Nat} {c : Call} {o : Outcome}

/-- **What a call leads to**, whatever moves there are in between. -/
theorem CompletesAmid.leads (h : CompletesAmid allowed s i o s') (hc : s.calls[i]? = some c) :
    c.Leads VmError.OfWork (.finished o) := by
  induction h generalizing c with
  | ends outcome => exact finished_of_outcome hc outcome ▸ c.leads_step_ofWork _
  | @steps s s' i o outcome rest ih =>
    obtain ⟨c', hongoing, hc'⟩ := ongoing_of_outcome hc outcome
    have hstep := c.leads_step_ofWork s.machine
    rw [hongoing] at hstep
    exact hstep.of_ongoing (ih hc')
  | others mv other mem rest ih => exact ih (calls_place other hc)

end System

end DemandPaging
