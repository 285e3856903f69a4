import DemandPaging.Proofs.Invariant
import DemandPaging.Proofs.WaitingRoom

/-!
# Wake-ups

A frame that loses its last pin wakes one waiter, and so there is a pending wake-up for every frame
without a pin as long as somebody waits: the system is *covered*. A call that was woken takes its
wake-up and tries again. If the attempt takes a frame, or gives one back, the system stays covered.
But the attempt may end without either, because the process of the call is gone, a page cannot be
saved, or the page has come back to a frame that is pinned already. Then the wake-up is lost, and if
it was the last one, the calls in the queue sleep on although there is a frame for them. This is the
only way in which it can happen.

Moves are judged by what they do to three numbers, the `Demand`: frames without a pin, calls in the
queue, and pending wake-ups.
-/

namespace DemandPaging

open Machine

/-! ## Frames, queue and wake-ups -/

/-- How many frames are without a pin, how many calls are in the queue, and how many were woken and
have not tried again. -/
structure Demand where
  idle : Nat
  queue : Nat
  woken : Nat

/-- What a move can do to the demand, if it takes a wake-up only for a `retry`. -/
inductive Demand.Shifts (retry : Prop) (a b : Demand) : Prop
  /-- No frame loses its last pin, nobody queues up, and no wake-up is taken. -/
  | settled (idle : b.idle ≤ a.idle) (queue : b.queue ≤ a.queue) (woken : a.woken ≤ b.woken)
  /-- A wake-up is taken, and otherwise as before. -/
  | retried (cause : retry) (idle : b.idle ≤ a.idle) (queue : b.queue ≤ a.queue)
      (woken : a.woken ≤ b.woken + 1)
  /-- A frame loses its last pin, and one of those who wait is woken. -/
  | freed (idle : b.idle ≤ a.idle + 1) (queue : b.queue ≤ a.queue)
      (woken : a.queue ≠ 0 → a.woken < b.woken)
  /-- Every frame is pinned, and so a call queues up. -/
  | parked (idle : b.idle = 0)

/-- There is a wake-up for every frame without a pin, as long as somebody waits. -/
def Demand.Covered (a : Demand) : Prop := a.queue ≠ 0 → a.idle ≤ a.woken

/-- A wake-up is taken and no frame with it, though somebody waits and no wake-up can be spared. -/
def Demand.Loses (a b : Demand) : Prop :=
  b.queue ≠ 0 ∧ b.woken < a.woken ∧ a.idle ≤ b.idle ∧ a.idle = a.woken

instance (a b : Demand) : Decidable (a.Loses b) := inferInstanceAs (Decidable (_ ∧ _ ∧ _ ∧ _))

namespace Demand.Shifts

variable {retry : Prop} {a b : Demand} (h : Shifts retry a b)
include h

/-- Covered demand stays covered unless a wake-up is lost. -/
theorem covered_iff (ha : a.Covered) : b.Covered ↔ ¬ a.Loses b := by
  unfold Covered Loses at *
  cases h with
  | settled idle queue woken => omega
  | retried cause idle queue woken => omega
  | freed idle queue woken => omega
  | parked idle => omega

/-- Only a retry loses a wake-up. -/
theorem retry_of_loses (hl : a.Loses b) : retry := by
  unfold Loses at hl
  cases h with
  | settled idle queue woken => omega
  | retried cause idle queue woken => exact cause
  | freed idle queue woken => omega
  | parked idle => omega

theorem mono {retry' : Prop} (himp : retry → retry') : Shifts retry' a b := by
  cases h with
  | settled idle queue woken => exact .settled idle queue woken
  | retried cause idle queue woken => exact .retried (himp cause) idle queue woken
  | freed idle queue woken => exact .freed idle queue woken
  | parked idle => exact .parked idle

end Demand.Shifts

/-- The demand of a machine on which calls wait with the tickets `ts`. -/
def Machine.demand (m : Machine) (ts : List Ticket) : Demand :=
  ⟨m.idle, m.waiters.queue.size, m.waiters.woken ts⟩

section Shifts

variable {retry : Prop} {m m' : Machine} {ts ts' : List Ticket} (h : m.waiters.Serves ts)
  (h' : m'.waiters.Serves ts')
include h h'

/-- As long as everybody waits on, no wake-up is taken. -/
theorem shifts_settled (hidle : m'.idle ≤ m.idle)
    (hqueue : m'.waiters.queue.size ≤ m.waiters.queue.size) (hlength : ts.length = ts'.length) :
    Demand.Shifts retry (m.demand ts) (m'.demand ts') := by
  have hwoken := h.woken_add_size
  have hwoken' := h'.woken_add_size
  have hle : m.waiters.woken ts ≤ m'.waiters.woken ts' := by omega
  exact .settled hidle hqueue hle

/-- Who does not wait any more has taken a wake-up. -/
theorem shifts_retried (cause : retry) (hidle : m'.idle ≤ m.idle)
    (hqueue : m'.waiters.queue.size ≤ m.waiters.queue.size) (hlength : ts.length = ts'.length + 1) :
    Demand.Shifts retry (m.demand ts) (m'.demand ts') := by
  have hwoken := h.woken_add_size
  have hwoken' := h'.woken_add_size
  have hle : m.waiters.woken ts ≤ m'.waiters.woken ts' + 1 := by omega
  exact .retried cause hidle hqueue hle

/-- A waiter that leaves the queue was woken. -/
theorem shifts_freed (hidle : m'.idle ≤ m.idle + 1)
    (hqueue : m'.waiters.queue.size = m.waiters.queue.size - 1) (hlength : ts.length = ts'.length) :
    Demand.Shifts retry (m.demand ts) (m'.demand ts') := by
  have hwoken := h.woken_add_size
  have hwoken' := h'.woken_add_size
  have hlt : m.waiters.queue.size ≠ 0 → m.waiters.woken ts < m'.waiters.woken ts' := by omega
  exact .freed hidle (by rw [demand, demand, hqueue]; exact Nat.sub_le ..) hlt

end Shifts

theorem Machine.demand_perm (m : Machine) {ts ts' : List Ticket} (h : ts.Perm ts') :
    m.demand ts = m.demand ts' := by
  rw [demand, demand, WaitRoom.woken, WaitRoom.woken, h.countP_eq]

/-- Taking a pin away shifts the demand. -/
theorem shifts_dropPin (retry : Prop) {m : Machine} {ts : List Ticket}
    (h : m.waiters.Serves ts) {f : FrameNumber} {i : FrameInfo ProcessId}
    (hi : m.frameInfo? f = some i) (hpins : i.pins ≠ 0) :
    (m.withFrames (m.kernel.frames.dropPin f i)).waiters.Serves ts ∧
      Demand.Shifts retry (m.demand ts)
        ((m.withFrames (m.kernel.frames.dropPin f i)).demand ts) := by
  have hidle : (m.withFrames (m.kernel.frames.dropPin f i)).idle =
      m.idle + (if i.pins = 1 then 1 else 0) := FrameTable.idle_dropPin hi hpins
  have hwaiters : (m.withFrames (m.kernel.frames.dropPin f i)).waiters =
      if 1 < i.pins then m.waiters else m.waiters.wakeOne.2 := FrameTable.waiters_dropPin ..
  by_cases hlast : i.pins = 1
  · rw [if_pos hlast] at hidle
    rw [if_neg (by omega)] at hwaiters
    have h' : (m.withFrames (m.kernel.frames.dropPin f i)).waiters.Serves ts :=
      hwaiters ▸ h.wakeOne
    refine ⟨h', shifts_freed h h' (Nat.le_of_eq hidle) ?_ rfl⟩
    rw [hwaiters]
    exact WaitRoom.size_wakeOne _
  · rw [if_neg hlast, Nat.add_zero] at hidle
    rw [if_pos (by omega)] at hwaiters
    have h' : (m.withFrames (m.kernel.frames.dropPin f i)).waiters.Serves ts := hwaiters ▸ h
    exact ⟨h', shifts_settled h h' (Nat.le_of_eq hidle) (Nat.le_of_eq (by rw [hwaiters])) rfl⟩

/-- A teardown wakes waiters, and gives back frames that were without a pin before. -/
theorem shifts_departure (retry : Prop) {m : Machine} {ts : List Ticket}
    (h : m.waiters.Serves ts) {l : Ledger} {p : UserProcess}
    {r : EStateM.Result (Stop VmError) Machine Unit} (hd : Departure m l p r) {m' : Machine}
    (hr : r = .ok () m' ∨ ∃ stop, r = .error stop m') :
    m'.waiters.Serves ts ∧ Demand.Shifts retry (m.demand ts) (m'.demand ts) := by
  have hall : m'.idle = m.idle ∧ ∃ n, m'.waiters = m.waiters.wakeMany n := by
    cases hd with
    | gone sound keeps idle waiters =>
      rcases hr with heq | ⟨stop, heq⟩
      · cases heq
        exact ⟨idle, waiters⟩
      · cases heq
    | stopped sound keeps idle waiters =>
      rcases hr with heq | ⟨stop, heq⟩
      · cases heq
      · cases heq
        exact ⟨idle, waiters⟩
  obtain ⟨hidle, n, hwaiters⟩ := hall
  have h' : m'.waiters.Serves ts := hwaiters ▸ h.wakeMany n
  refine ⟨h', shifts_settled h h' (Nat.le_of_eq hidle) ?_ rfl⟩
  rw [hwaiters]
  exact WaitRoom.size_wakeMany_le ..

/-! ## Steps of calls -/

/-- The ticket that the call waits with. -/
def Call.ticket? (c : Call) : Option Ticket :=
  match c.stage with
  | .waiting t => some t
  | _ => none

/-- The ticket that the call has come to wait with. -/
def Progress.ticket? : Progress → Option Ticket
  | .ongoing c => c.ticket?
  | .finished _ => none

namespace Call

variable {m : Machine} {l : Ledger} {c : Call} {x : Progress × Machine} {others : List Ticket}

theorem ticket?_of_ne {c : Call} (h : ∀ t, c.stage ≠ .waiting t) : c.ticket? = none := by
  unfold ticket?
  split
  · next heq => exact absurd heq (h _)
  · rfl

theorem ticket?_of_quiet {pr : Progress} (h : c.Quiet pr) : pr.ticket? = none := by
  cases pr with
  | ongoing c' => exact ticket?_of_ne h.2.2.1
  | finished o => rfl

theorem ticket?_of_frame {f : FrameNumber} (h : c.frame? = some f) : c.ticket? = none := by
  refine ticket?_of_ne fun t hstage => ?_
  rw [frame?, hstage] at h
  contradiction

/-- The call was woken and tries again. The attempt gets at the page, or it fails. -/
def Retries (c : Call) (m : Machine) (pr : Progress) : Prop :=
  ∃ t, c.stage = .waiting t ∧ m.waiters.parkers[t]? = some ⟨true⟩ ∧
    ((∃ f, pr = .ongoing { c with stage := .holding f }) ∨ ∃ stop, pr = c.afterFailure stop)

/-- A call that is about to ask for its page has taken its wake-up. -/
theorem Ready.serves {m₁ : Machine} (hr : c.Ready m m₁)
    (h : m.waiters.Serves (c.ticket?.toList ++ others)) :
    m₁.waiters.Serves others ∧ m₁.waiters.queue = m.waiters.queue ∧ m₁.idle = m.idle := by
  cases hr with
  | seeking stage =>
    rw [ticket?, stage] at h
    exact ⟨h, rfl, rfl⟩
  | woken stage parked =>
    rw [ticket?, stage] at h
    obtain ⟨hserves, hqueue⟩ := h.park parked
    exact ⟨hserves, hqueue, rfl⟩

/-- An attempt that does not end in the queue takes the wake-up of the call, if there was one. -/
theorem Ready.shifts {m₁ m' : Machine} {pr : Progress} (hr : c.Ready m m₁)
    (h : m.waiters.Serves (c.ticket?.toList ++ others)) (h' : m'.waiters.Serves others)
    (hidle : m'.idle ≤ m₁.idle) (hqueue : m'.waiters.queue.size ≤ m₁.waiters.queue.size)
    (hpr : (∃ f, pr = .ongoing { c with stage := .holding f }) ∨ ∃ stop, pr = c.afterFailure stop) :
    Demand.Shifts (c.Retries m pr) (m.demand (c.ticket?.toList ++ others)) (m'.demand others) := by
  obtain ⟨-, hqueue₁, hidle₁⟩ := hr.serves h
  rw [hidle₁] at hidle
  rw [hqueue₁] at hqueue
  cases hr with
  | seeking stage =>
    rw [ticket?, stage] at h ⊢
    exact shifts_settled h h' hidle hqueue rfl
  | @woken t room e stage parked =>
    have hretry : c.Retries m pr := ⟨t, stage, (WaitRoom.park?_eq_some.mp parked).1, hpr⟩
    rw [ticket?, stage] at h ⊢
    exact shifts_retried h h' hretry hidle hqueue rfl

/-- An attempt to get at a page shifts the demand. -/
theorem Ready.shifts_attempt {m₁ : Machine} {page : PageNumber}
    {r : EStateM.Result (Stop VmError) Machine Grant} (ready : c.Ready m m₁)
    (resolution : Action.Resolution m₁ l c.process page r) (hm : m₁.Sound l) (hv : c.Valid)
    (h : m.waiters.Serves (c.ticket?.toList ++ others)) :
    (c.afterSeek r).2.waiters.Serves ((c.afterSeek r).1.ticket?.toList ++ others) ∧
      Demand.Shifts (c.Retries m (c.afterSeek r).1) (m.demand (c.ticket?.toList ++ others))
        ((c.afterSeek r).2.demand ((c.afterSeek r).1.ticket?.toList ++ others)) := by
  have h₁ := (ready.serves h).1
  cases resolution with
  | @pinned f m' registered sound keeps info idle_le le_idle waiters =>
    have h' : m'.waiters.Serves others := waiters ▸ h₁
    have hqueue : m'.waiters.queue.size ≤ m₁.waiters.queue.size := Nat.le_of_eq (by rw [waiters])
    exact ⟨h', ready.shifts h h' idle_le hqueue (Or.inl ⟨f, rfl⟩)⟩
  | @queued m' idle alike waiters =>
    have h' : m'.waiters.Serves (m₁.waiters.parkers.size :: others) := waiters ▸ h₁.enqueue
    exact ⟨h', .parked ((alike.idle hm.pool).trans idle)⟩
  | @failed err m' sound keeps idle waiters =>
    have hticket : (c.afterFailure (.error err)).ticket? = none :=
      ticket?_of_quiet (quiet_afterFailure hv (.error err))
    rw [afterSeek, hticket]
    have h' : m'.waiters.Serves others ∧ m'.waiters.queue.size ≤ m₁.waiters.queue.size := by
      cases waiters with
      | inl same => exact ⟨same ▸ h₁, Nat.le_of_eq (by rw [same])⟩
      | inr passed =>
        refine ⟨passed ▸ h₁.wakeOne, ?_⟩
        rw [passed, WaitRoom.size_wakeOne]
        exact Nat.sub_le ..
    exact ⟨h'.1, ready.shifts h h'.1 (Nat.le_of_eq idle) h'.2 (Or.inr ⟨.error err, rfl⟩)⟩
  | @stuck v m' loose image sound keeps idle waiters =>
    have hticket : (c.afterFailure (.violation v)).ticket? = none :=
      ticket?_of_quiet (quiet_afterFailure hv (.violation v))
    rw [afterSeek, hticket]
    have h' : m'.waiters.Serves others := waiters ▸ h₁
    have hqueue : m'.waiters.queue.size ≤ m₁.waiters.queue.size := Nat.le_of_eq (by rw [waiters])
    exact ⟨h', ready.shifts h h' idle hqueue (Or.inr ⟨.violation v, rfl⟩)⟩

/-- **A step shifts the demand**, and the room goes on to serve those who wait. -/
theorem Stepped.shifts (hs : Stepped m l c x) (hm : m.Sound l) (hv : c.Valid)
    (h : m.waiters.Serves (c.ticket?.toList ++ others)) :
    x.2.waiters.Serves (x.1.ticket?.toList ++ others) ∧
      Demand.Shifts (c.Retries m x.1) (m.demand (c.ticket?.toList ++ others))
        (x.2.demand (x.1.ticket?.toList ++ others)) := by
  cases hs with
  | asleep stage parked => exact ⟨h, shifts_settled h h (Nat.le_refl _) (Nat.le_refl _) rfl⟩
  | quiet stage quiet alike waiters =>
    have hticket := ticket?_of_quiet quiet
    have hfree : c.ticket? = none := by rw [ticket?, stage]
    rw [hticket]
    rw [hfree] at h ⊢
    have h' := waiters ▸ h
    exact ⟨h', shifts_settled h h' (Nat.le_of_eq (alike.idle hm.pool))
      (Nat.le_of_eq (by rw [waiters])) rfl⟩
  | attempt ready wanted resolution =>
    exact ready.shifts_attempt resolution (hm.alike ready.alike) hv h
  | @unpinned f i ts frame info pins writing valid continues =>
    rw [ticket?_of_frame frame] at h ⊢
    exact shifts_dropPin _ h info pins
  | @kept f page kind stage wanted writing =>
    have hfree : c.ticket? = none := by rw [ticket?, stage]
    rw [hfree] at h ⊢
    exact ⟨h, shifts_settled h h (Nat.le_refl _) (Nat.le_refl _) rfl⟩
  | @copied f copy copy' piece rest m' stage tasks turn copied valid =>
    have hfree : c.ticket? = none := by rw [ticket?, stage]
    rw [hfree] at h ⊢
    have hidle : m'.idle = m.idle := by rw [Machine.idle, copied.frames]
    have hwaiters : m'.waiters = m.waiters := by rw [Machine.waiters, copied.frames]
    have h' : m'.waiters.Serves others := hwaiters ▸ h
    exact ⟨h', shifts_settled h h' (Nat.le_of_eq hidle) (Nat.le_of_eq (by rw [hwaiters])) rfl⟩
  | @undone e r stage departure =>
    have hfree : c.ticket? = none := by rw [ticket?, stage]
    rw [hfree] at h ⊢
    cases r with
    | ok u m' => exact shifts_departure _ (m := m.noted _) h departure (Or.inl rfl)
    | error stop m' => exact shifts_departure _ (m := m.noted _) h departure (Or.inr ⟨stop, rfl⟩)

end Call

namespace System

variable {s : System} {loose : List FrameNumber} {broken : List ProcessId}

/-! ## Moves -/

/-- The tickets of the calls that wait. -/
def tickets (s : System) : List Ticket := s.calls.filterMap Call.ticket?

/-- Frames without a pin, calls in the queue, and pending wake-ups. -/
def demand (s : System) : Demand := s.machine.demand s.tickets

/-- The move is the retry of a call that was woken. -/
def Retries (s : System) (mv : Move) : Prop :=
  ∃ i c, mv = .step i ∧ s.calls[i]? = some c ∧ c.Retries s.machine (c.step s.machine).1

/-- Queue and parkers tell the same story as the calls, and what a move does to the demand is one of
the shifts. -/
structure Shifted (s s' : System) (mv : Move) : Prop where
  serves : s'.machine.waiters.Serves s'.tickets
  shifts : Demand.Shifts (s.Retries mv) s.demand s'.demand

/-- Nothing that concerns those who wait has changed. -/
theorem shifted_of_eq (hw : s.machine.waiters.Serves s.tickets) {s' : System}
    (hframes : s'.machine.kernel.frames = s.machine.kernel.frames)
    (htickets : s'.tickets = s.tickets) (mv : Move) : s.Shifted s' mv := by
  have hwaiters : s'.machine.waiters = s.machine.waiters := by rw [Machine.waiters, hframes]
  have hidle : s'.machine.idle = s.machine.idle := by rw [Machine.idle, hframes]
  have hw' : s'.machine.waiters.Serves s'.tickets := by
    rw [hwaiters, htickets]
    exact hw
  exact ⟨hw', shifts_settled hw hw' (Nat.le_of_eq hidle) (Nat.le_of_eq (by rw [hwaiters]))
    (by rw [htickets])⟩

/-- A call that does not wait brings no ticket. -/
theorem tickets_append {cs : List Call} {c : Call} (hc : c.ticket? = none) :
    (cs ++ [c]).filterMap Call.ticket? = cs.filterMap Call.ticket? := by
  rw [List.filterMap_append, List.filterMap_cons_none hc, List.filterMap_nil, List.append_nil]

theorem ticket?_toCall (p : UserProcess) (r : Request) : (r.toCall p).ticket? = none := by
  cases r <;> rfl

/-- The call that went a step has the ticket that it has come to wait with, and the others keep
theirs. -/
theorem tickets_after_step {i : Nat} {c : Call} (hc : s.calls[i]? = some c) :
    (s.after (.step i)).tickets.Perm ((c.step s.machine).1.ticket?.toList ++
      (s.calls.eraseIdx i).filterMap Call.ticket?) := by
  cases hstep : c.step s.machine with
  | mk pr m =>
    cases pr with
    | ongoing c' =>
      simp only [after, move, stepCall, hc, hstep, tickets]
      exact filterMap_set_perm Call.ticket? hc c'
    | finished o =>
      simp only [after, move, stepCall, hc, hstep]
      rcases keep_cases { s with machine := m, calls := s.calls.eraseIdx i } c o with
        ⟨g, -, hkeep⟩ | ⟨-, hkeep⟩
      · rw [hkeep]
        exact .refl _
      · rw [hkeep]
        exact .refl _

theorem shifted_step (h : s.Sound loose broken) (hw : s.machine.waiters.Serves s.tickets)
    (i : Nat) : s.Shifted (s.after (.step i)) (.step i) := by
  cases hc : s.calls[i]? with
  | none =>
    have hmove : s.move (.step i) = (none, s) := by simp only [move, stepCall, hc]
    rw [after, hmove]
    exact shifted_of_eq hw rfl rfl _
  | some c =>
    have hv := (h.calls c (List.mem_of_getElem? hc)).2.1
    have hbefore : s.tickets.Perm
        (c.ticket?.toList ++ (s.calls.eraseIdx i).filterMap Call.ticket?) :=
      filterMap_perm Call.ticket? hc
    have hafter := tickets_after_step hc
    obtain ⟨hserves, hshifts⟩ := (stepped h hc).shifts h.machine hv (hw.perm hbefore)
    constructor
    · rw [machine_after_step hc]
      exact hserves.perm hafter.symm
    · rw [demand, demand, machine_after_step hc, demand_perm _ hbefore, demand_perm _ hafter]
      exact hshifts.mono fun hretry => ⟨i, c, rfl, hc, hretry⟩

theorem shifted_spawn (hw : s.machine.waiters.Serves s.tickets) (image : Executable)
    (args : List Bytes) (mode : PagingMode) :
    s.Shifted (s.after (.spawn image args mode)) (.spawn image args mode) := by
  rcases move_spawn s image args mode with ⟨stop, -, hmove⟩ | ⟨c, m, hbirth, hmove⟩
  · rw [after, hmove]
    exact shifted_of_eq hw rfl rfl _
  · rw [after, hmove]
    cases hbirth with
    | begun pid index himage fits absent =>
      refine shifted_of_eq hw ?_ ?_ _
      · rfl
      · exact tickets_append rfl

theorem shifted_request (hw : s.machine.waiters.Serves s.tickets) (i : Nat) (r : Request) :
    s.Shifted (s.after (.request i r)) (.request i r) := by
  cases hp : s.processes[i]? with
  | none =>
    simp only [after, move, hp]
    exact shifted_of_eq hw rfl rfl _
  | some p =>
    simp only [after, move, hp]
    refine shifted_of_eq hw ?_ ?_ _
    · rfl
    · exact tickets_append (ticket?_toCall p r)

theorem shifted_drop (h : s.Sound loose broken) (hw : s.machine.waiters.Serves s.tickets)
    (i : Nat) : s.Shifted (s.after (.drop i)) (.drop i) := by
  rcases move_drop h i with hmove | ⟨g, f, -, hf, hpins, hmove⟩
  · rw [after, hmove]
    exact shifted_of_eq hw rfl rfl _
  · rw [after, hmove]
    obtain ⟨hserves, hshifts⟩ := shifts_dropPin (s.Retries (.drop i)) hw hf hpins
    exact ⟨hserves, hshifts⟩

theorem shifted_release (h : s.Sound loose broken) (hw : s.machine.waiters.Serves s.tickets)
    (i : Nat) : s.Shifted (s.after (.release i)) (.release i) := by
  rcases move_release h i with
    ⟨-, hmove⟩ | ⟨p, m, -, ⟨hdepart, hmove⟩ | ⟨v, hdepart, hmove⟩⟩
  · rw [after, hmove]
    exact shifted_of_eq hw rfl rfl _
  · obtain ⟨hserves, hshifts⟩ :=
      shifts_departure (s.Retries (.release i)) hw hdepart (Or.inl rfl)
    rw [after, hmove]
    exact ⟨hserves, hshifts⟩
  · obtain ⟨hserves, hshifts⟩ :=
      shifts_departure (s.Retries (.release i)) hw hdepart (Or.inr ⟨_, rfl⟩)
    rw [after, hmove]
    exact ⟨hserves, hshifts⟩

/-- **Every move shifts the demand**, and the room goes on to serve those who wait. -/
theorem shifted (h : s.Sound loose broken) (hw : s.machine.waiters.Serves s.tickets) (mv : Move) :
    s.Shifted (s.after mv) mv := by
  cases mv with
  | spawn image args mode => exact shifted_spawn hw image args mode
  | request i r => exact shifted_request hw i r
  | step i => exact shifted_step h hw i
  | drop i => exact shifted_drop h hw i
  | release i => exact shifted_release h hw i
  | spoil unreadable =>
    refine shifted_of_eq hw ?_ ?_ _
    · rfl
    · rfl

/-! ## All reachable systems -/

/-- Somebody waits only if every frame is owned and pinned, or if a call was woken that has not
tried again. -/
def Served (s : System) : Prop :=
  s.machine.waiters.queue.waiting ≠ [] →
    (∀ f i, s.machine.frameInfo? f = some i → i.owner ≠ none ∧ i.pins ≠ 0) ∨
    ∃ c ∈ s.calls, ∃ t, c.stage = .waiting t ∧ s.machine.waiters.parkers[t]? = some ⟨true⟩

/-- The move takes a wake-up without a frame and passes none on, though somebody waits and there are
no more wake-ups than frames without a pin. -/
def Loses (s : System) (mv : Move) : Prop := s.demand.Loses (s.after mv).demand

/-- A pending wake-up is that of a call. -/
theorem exists_woken (h : s.demand.woken ≠ 0) :
    ∃ c ∈ s.calls, ∃ t, c.stage = .waiting t ∧ s.machine.waiters.parkers[t]? = some ⟨true⟩ := by
  obtain ⟨t, ht, hwoken⟩ := WaitRoom.exists_of_woken h
  obtain ⟨c, hc, hticket⟩ := List.mem_filterMap.mp ht
  refine ⟨c, hc, t, ?_, hwoken⟩
  unfold Call.ticket? at hticket
  split at hticket
  · next heq =>
    rw [Option.some.injEq] at hticket
    rw [heq, hticket]
  · contradiction

/-- A call that was woken is counted. -/
theorem woken_ne_zero {c : Call} {t : Ticket} (hc : c ∈ s.calls) (hstage : c.stage = .waiting t)
    (hwoken : s.machine.waiters.parkers[t]? = some ⟨true⟩) : s.demand.woken ≠ 0 := by
  have ht : t ∈ s.tickets := List.mem_filterMap.mpr ⟨c, hc, by rw [Call.ticket?, hstage]⟩
  exact Nat.ne_of_gt (List.countP_pos_iff.mpr ⟨t, ht, decide_eq_true hwoken⟩)

/-- Who waits is served exactly if a wake-up is pending or no frame is without a pin. -/
theorem served_iff (h : s.Sound loose broken) :
    s.Served ↔ (s.demand.queue ≠ 0 → s.demand.idle = 0 ∨ s.demand.woken ≠ 0) := by
  have hqueue : s.machine.waiters.queue.waiting ≠ [] ↔ s.demand.queue ≠ 0 :=
    List.length_eq_zero_iff.not.symm
  have hwoken : (∃ c ∈ s.calls, ∃ t, c.stage = .waiting t ∧
      s.machine.waiters.parkers[t]? = some ⟨true⟩) ↔ s.demand.woken ≠ 0 := by
    refine ⟨?_, exists_woken⟩
    rintro ⟨c, hc, t, hstage, hpending⟩
    exact woken_ne_zero hc hstage hpending
  rw [Served, hqueue, hwoken, ← h.machine.idle_eq_zero_iff]
  rfl

/-- Covered demand is served. -/
theorem served_of_covered (h : s.Sound loose broken) (hc : s.demand.Covered) : s.Served := by
  rw [served_iff h]
  intro hqueue
  have hle := hc hqueue
  omega

/-- A machine that has just started has nobody to serve. -/
theorem serves_boot {config : Config} {swap : Swap} {m : Machine}
    (h : Machine.boot config swap = .ok m) :
    m.waiters.Serves (ofMachine m).tickets ∧ (ofMachine m).demand.Covered := by
  obtain ⟨-, rfl⟩ := eq_started_of_boot h
  exact ⟨WaitRoom.serves_empty, fun hqueue => absurd rfl hqueue⟩

/-- There is room for the move, and it loses no wake-up. -/
def Saves (s : System) (mv : Move) : Prop := s.HasRoom mv ∧ ¬ s.Loses mv

instance (s : System) (mv : Move) : Decidable (s.Saves mv) :=
  inferInstanceAs (Decidable (s.HasRoom mv ∧ ¬ s.demand.Loses (s.after mv).demand))

/-- As long as no wake-up is lost, the demand is covered. -/
theorem covered_of_saves {config : Config} {swap : Swap} {m : Machine}
    (hboot : Machine.boot config swap = .ok m) {s : System}
    (hs : Reachable Saves (ofMachine m) s) :
    (∃ loose broken, s.Sound loose broken) ∧ s.machine.waiters.Serves s.tickets ∧
      s.demand.Covered := by
  induction hs with
  | start => exact ⟨⟨[], [], sound_boot hboot⟩, serves_boot hboot⟩
  | move mv _ hmv ih =>
    obtain ⟨⟨loose, broken, hsound⟩, hserves, hcovered⟩ := ih
    obtain ⟨loose', hsound'⟩ := (moved hsound hmv.1).sound
    obtain ⟨hserves', hshifts⟩ := shifted hsound hserves mv
    exact ⟨⟨loose', _, hsound'⟩, hserves', (hshifts.covered_iff hcovered).mpr hmv.2⟩

/-- **Only a lost wake-up leaves a waiter behind.** As long as no move loses a wake-up, a call is in
the queue only if every frame is owned and pinned or a call that was woken has not tried again. From
there on, exactly the moves that lose a wake-up lead to fewer pending wake-ups than frames without a
pin while somebody waits. Such a move is the retry of a call that was woken, and if no other wake-up
is pending, the calls in the queue sleep although a frame is without a pin. -/
theorem served_of_saves {config : Config} {swap : Swap} {m : Machine}
    (hboot : Machine.boot config swap = .ok m) {s : System}
    (hs : Reachable Saves (ofMachine m) s) :
    s.Served ∧ ∀ mv, s.HasRoom mv →
      ((s.after mv).demand.Covered ↔ ¬ s.Loses mv) ∧
      (s.Loses mv → s.Retries mv ∧
        ((s.after mv).demand.woken = 0 → ¬ (s.after mv).Served)) := by
  obtain ⟨⟨loose, broken, hsound⟩, hserves, hcovered⟩ := covered_of_saves hboot hs
  refine ⟨served_of_covered hsound hcovered, fun mv hroom => ?_⟩
  have hshifts := (shifted hsound hserves mv).shifts
  obtain ⟨loose', hsound'⟩ := (moved hsound hroom).sound
  refine ⟨hshifts.covered_iff hcovered, fun hloses => ⟨hshifts.retry_of_loses hloses, ?_⟩⟩
  intro hnone hserved
  obtain ⟨hqueue, hwoken, hidle, heq⟩ := hloses
  rcases (served_iff hsound').mp hserved hqueue with hzero | hsome
  · rw [hzero, heq] at hidle
    omega
  · exact hsome hnone

/-- A system with one frame and three processes. The first kept the frame pinned, the others waited
for it, then the second was torn down and the first gave the frame back. -/
def wokenInVain : System := (ofMachine (fresh 1)).run
  [.spawn (Image.ofMemory .empty).toExecutable [] .demand, .step 0,
    .spawn (Image.ofMemory .empty).toExecutable [] .demand, .step 0,
    .spawn (Image.ofMemory .empty).toExecutable [] .demand, .step 0,
    .request 0 (.pin ⟨0⟩ .read), .step 0, .step 0, .request 1 (.fault ⟨0⟩), .step 0,
    .request 2 (.fault ⟨0⟩), .step 1, .release 1, .drop 0]

/-- The second process is gone, so its call takes the wake-up in vain, and the call of the third
sleeps on although the frame is free for it. -/
theorem served_of_saves_wokenInVain :
    wokenInVain.Served ∧ wokenInVain.Loses (.step 0) ∧ wokenInVain.Retries (.step 0) ∧
      ¬ (wokenInVain.after (.step 0)).Served := by
  have hreach : Reachable Saves (ofMachine (fresh 1)) wokenInVain := Reachable.start.run (by decide)
  have hloses : wokenInVain.demand.Loses (wokenInVain.after (.step 0)).demand := by decide
  obtain ⟨hserved, hmoves⟩ :=
    @served_of_saves ⟨1, 1, true⟩ (.empty none) (fresh 1) rfl wokenInVain hreach
  obtain ⟨hretries, hstarved⟩ := (hmoves (.step 0) trivial).2 hloses
  exact ⟨hserved, hloses, hretries, hstarved (by decide)⟩

end System

end DemandPaging
