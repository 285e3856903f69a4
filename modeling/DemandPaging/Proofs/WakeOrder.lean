import DemandPaging.Proofs.LastCalls
import DemandPaging.Proofs.PoolClients
import DemandPaging.Proofs.WaitingRoom

/-!
# Who is woken, and when

What the queue of a pool and the parkers hold is told by the calls that were made, and by how they
ended: who was put into the queue (`FrameTable.enqueued`), how many waiters were woken
(`FrameTable.wakes`), and which parkers were unparked since somebody last came back from them
(`FrameTable.Pending`). A wake-up goes to the parker that was put into the queue as the first of
those not yet woken, whether or not it stands there twice; and a parker remembers that it was
unparked, but not how often.
-/

namespace DemandPaging

namespace FrameTable

variable {O : Type} {t t' : FrameTable O} {op : Operation O} {n : Nat} {r r' : WaitRoom}
  {past : List (Entry O)} {e : Entry O} {p : Ticket}

/-! ## What the calls tell -/

namespace Entry

/-- The parker that was put into the queue. -/
def enqueued? (e : Entry O) : Option Ticket :=
  match e.operation with
  | .room (.enqueue p) => some p
  | _ => none

/-- Whether the call woke a waiter. -/
def woke (e : Entry O) : Bool :=
  match e.outcome with
  | .ok (.woke b) => b
  | _ => false

/-- The caller slept on parker `p` and came back. -/
def CameBack (e : Entry O) (p : Ticket) : Prop :=
  e.operation = .room (.park p) ∧ e.outcome = .ok (.returned true)

/-- The call has nothing to do with the queue and the parkers. -/
structure Quiet (e : Entry O) : Prop where
  enqueued? : e.enqueued? = none
  woke : e.woke = false
  unpark : ∀ p, e.operation ≠ .room (.unpark p)
  cameBack : ∀ p, ¬ e.CameBack p

end Entry

/-- The parkers that were put into the queue, the first of them first. -/
def enqueued (past : List (Entry O)) : List Ticket := past.filterMap Entry.enqueued?

/-- How many waiters were woken. -/
def wakes (past : List (Entry O)) : Nat := past.countP Entry.woke

/-- After the calls `past`, the call `e` leaves a wake-up with parker `p`: it unparks it, or it
wakes a waiter, and as many waiters were woken before as parkers were put into the queue before `p`.
-/
def Notifies (past : List (Entry O)) (e : Entry O) (p : Ticket) : Prop :=
  e.operation = .room (.unpark p) ∨ e.woke = true ∧ (enqueued past)[wakes past]? = some p

/-- Parker `p` was unparked at least once since somebody last came back from it. -/
def Pending (past : List (Entry O)) (p : Ticket) : Prop :=
  ∃ before e behind, past = before ++ e :: behind ∧ Notifies before e p ∧
    ∀ x ∈ behind, ¬ x.CameBack p

theorem enqueued_append (past : List (Entry O)) (e : Entry O) :
    enqueued (past ++ [e]) = enqueued past ++ e.enqueued?.toList := by
  rw [enqueued, List.filterMap_append]
  cases h : e.enqueued? <;> simp [enqueued, h]

theorem wakes_append (past : List (Entry O)) (e : Entry O) :
    wakes (past ++ [e]) = wakes past + if e.woke = true then 1 else 0 := by
  rw [wakes, List.countP_append, List.countP_singleton]
  rfl

/-- The last call leaves a wake-up, or lets one be that was left before. -/
theorem pending_append : Pending (past ++ [e]) p ↔
    Notifies past e p ∨ Pending past p ∧ ¬ e.CameBack p :=
  exists_since_append

/-! ## The room bears it out -/

/-- Queue and parkers are what the calls tell. -/
structure Records (past : List (Entry O)) (r : WaitRoom) : Prop where
  wakes_le : wakes past ≤ (enqueued past).length
  queue : r.queue.waiting = (enqueued past).drop (wakes past)
  made : ∀ p ∈ enqueued past, p < r.parkers.size
  pending : ∀ p, r.parkers[p]? = some ⟨true⟩ ↔ Pending past p

theorem records_nil : Records ([] : List (Entry O)) .empty where
  wakes_le := Nat.le_refl _
  queue := rfl
  made _ hp := absurd hp List.not_mem_nil
  pending _ := iff_of_false nofun not_exists_since_nil

/-- A call that leaves the queue alone. -/
theorem Records.of_queue (h : Records past r) (henqueued : e.enqueued? = none)
    (hwoke : e.woke = false) (hqueue : r'.queue = r.queue)
    (hsize : r.parkers.size ≤ r'.parkers.size)
    (hpending : ∀ p, r'.parkers[p]? = some ⟨true⟩ ↔ Pending (past ++ [e]) p) :
    Records (past ++ [e]) r' where
  wakes_le := by simpa [enqueued_append, wakes_append, henqueued, hwoke] using h.wakes_le
  queue := by simpa [enqueued_append, wakes_append, henqueued, hwoke, hqueue] using h.queue
  made p hp := by
    rw [enqueued_append, henqueued, Option.toList_none, List.append_nil] at hp
    exact Nat.lt_of_lt_of_le (h.made p hp) hsize
  pending := hpending

/-- A call that has nothing to do with the room. -/
theorem Records.quiet (h : Records past r) (he : e.Quiet) : Records (past ++ [e]) r :=
  h.of_queue he.enqueued? he.woke rfl (Nat.le_refl _) fun p => by
    simp [pending_append, Notifies, he.unpark, he.woke, he.cameBack, h.pending]

/-- The parker that is woken is the first that was put into the queue and not woken yet. -/
theorem Records.getElem?_enqueued (h : Records past r) :
    (enqueued past)[wakes past]? = r.queue.waiting.head? := by
  rw [h.queue, List.head?_drop]

theorem Records.size_queue (h : Records past r) :
    r.queue.size = (enqueued past).length - wakes past := by
  rw [WaitQueue.size, h.queue, List.length_drop]

/-- The oldest waiter is woken. -/
theorem Records.wakeOne (h : Records past r) {q : Ticket} {rest : List Ticket}
    (hq : r.queue.waiting = q :: rest)
    (hoperation : e.operation = .room .wakeOne ∨ ∃ f, e.operation = .unpin f)
    (houtcome : e.outcome = .ok (.woke true)) :
    Records (past ++ [e]) ⟨⟨rest⟩, r.parkers.modify q Parker.unpark⟩ := by
  have henqueued : e.enqueued? = none := by
    obtain hop | ⟨f, hop⟩ := hoperation <;> simp [Entry.enqueued?, hop]
  have hwoke : e.woke = true := by simp [Entry.woke, houtcome]
  have hunpark : ∀ p, e.operation ≠ .room (.unpark p) := by
    obtain hop | ⟨f, hop⟩ := hoperation <;> simp [hop]
  have hback : ∀ p, ¬ e.CameBack p := by simp [Entry.CameBack, houtcome]
  have hdrop : (enqueued past).drop (wakes past) = q :: rest := h.queue.symm.trans hq
  have hlen : (enqueued past).length - wakes past = rest.length + 1 := by
    rw [← List.length_drop, hdrop, List.length_cons]
  have hfirst : (enqueued past)[wakes past]? = some q := by
    rw [h.getElem?_enqueued, hq, List.head?_cons]
  have hqlt : q < r.parkers.size := h.made q (List.mem_of_getElem? hfirst)
  have hsame : enqueued (past ++ [e]) = enqueued past := by simp [enqueued_append, henqueued]
  have hmore : wakes (past ++ [e]) = wakes past + 1 := by simp [wakes_append, hwoke]
  constructor
  · rw [hsame, hmore]
    omega
  · rw [hsame, hmore, ← List.drop_drop, hdrop, List.drop_one, List.tail_cons]
  · simpa [hsame] using h.made
  · intro p
    have hnotifies : Notifies past e p ↔ q = p := by simp [Notifies, hunpark, hwoke, hfirst]
    rw [pending_append, hnotifies, ← h.pending, Array.getElem?_modify]
    by_cases hqp : q = p
    · -- a wake-up that was pending with this parker before and the new one are one
      subst hqp
      simp [Array.getElem?_eq_getElem hqlt, Parker.unpark]
    · simp [hqp, hback]

/-- A parker queues up. It may stand in the queue already. -/
theorem Records.enqueue (h : Records past r) (hp : p < r.parkers.size) :
    Records (past ++ [⟨.room (.enqueue p), .ok .done⟩]) (r.enqueue p) := by
  have henqueued : enqueued (past ++ [(⟨.room (.enqueue p), .ok .done⟩ : Entry O)]) =
      enqueued past ++ [p] := enqueued_append ..
  have hwakes : wakes (past ++ [(⟨.room (.enqueue p), .ok .done⟩ : Entry O)]) = wakes past :=
    wakes_append ..
  constructor
  · simpa [henqueued, hwakes] using Nat.le_succ_of_le h.wakes_le
  · rw [henqueued, hwakes, List.drop_append_of_le_length h.wakes_le, ← h.queue]
    rfl
  · intro q hq
    rw [henqueued, List.mem_append, List.mem_singleton] at hq
    exact hq.elim (h.made q) fun heq => heq ▸ hp
  · intro q
    simpa [pending_append, Notifies, Entry.woke, Entry.CameBack, WaitRoom.enqueue] using h.pending q

/-- No wake-up is pending with a new parker. -/
theorem Records.makeParker (h : Records past r) :
    Records (past ++ [⟨.room .makeParker, .ok .done⟩]) r.addParker := by
  refine h.of_queue rfl rfl rfl (by simp [WaitRoom.addParker]) fun p => ?_
  have hpending : Pending (past ++ [(⟨.room .makeParker, .ok .done⟩ : Entry O)]) p ↔
      Pending past p := by simp [pending_append, Notifies, Entry.woke, Entry.CameBack]
  rw [hpending, ← h.pending, WaitRoom.addParker, Array.getElem?_push]
  split
  · next hlast => simp [hlast, Parker.new]
  · rfl

/-- A parker is unparked, once more or for the first time. -/
theorem Records.unpark (h : Records past r) (hp : p < r.parkers.size) :
    Records (past ++ [⟨.room (.unpark p), .ok .done⟩]) (r.unpark p) := by
  refine h.of_queue rfl rfl rfl (by simp [WaitRoom.unpark]) fun q => ?_
  simp only [pending_append, Notifies, Entry.woke, Entry.CameBack, WaitRoom.unpark,
    Array.getElem?_modify]
  by_cases hpq : p = q
  · subst hpq
    simp [Array.getElem?_eq_getElem hp, Parker.unpark]
  · simp [hpq, h.pending]

/-- Somebody comes back from parker `p`, and takes along all wake-ups that were left there. -/
theorem Records.park (h : Records past r) (hpark : r.park? p = some r') :
    Records (past ++ [⟨.room (.park p), .ok (.returned true)⟩]) r' := by
  obtain ⟨-, rfl⟩ := WaitRoom.park?_eq_some.mp hpark
  refine h.of_queue rfl rfl rfl (by simp) fun q => ?_
  simp only [pending_append, Notifies, Entry.woke, Entry.CameBack, ← h.pending]
  by_cases hpq : p = q
  · subst hpq
    simp [Array.getElem?_setIfInBounds_self]
  · simp [Array.getElem?_setIfInBounds_ne hpq, hpq]

/-! ## What a call does in the room -/

/-- All that the call `e` can do to the queue and the parkers. -/
inductive Moves (r : WaitRoom) : Entry O → WaitRoom → Prop
  | quiet {e : Entry O} (quiet : e.Quiet) : Moves r e r
  | woke {e : Entry O} {q : Ticket} {rest : List Ticket} (queue : r.queue.waiting = q :: rest)
      (operation : e.operation = .room .wakeOne ∨ ∃ f, e.operation = .unpin f)
      (outcome : e.outcome = .ok (.woke true)) :
      Moves r e ⟨⟨rest⟩, r.parkers.modify q Parker.unpark⟩
  | enqueued {p : Ticket} (made : p < r.parkers.size) :
      Moves r ⟨.room (.enqueue p), .ok .done⟩ (r.enqueue p)
  | madeParker : Moves r ⟨.room .makeParker, .ok .done⟩ r.addParker
  | unparked {p : Ticket} (made : p < r.parkers.size) :
      Moves r ⟨.room (.unpark p), .ok .done⟩ (r.unpark p)
  | cameBack {p : Ticket} {r' : WaitRoom} (park : r.park? p = some r') :
      Moves r ⟨.room (.park p), .ok (.returned true)⟩ r'

/-- A refused call does nothing in the room. -/
theorem Refuses.quiet {v : Violation} (h : t.Refuses op v) : Entry.Quiet ⟨op, .error v⟩ := by
  cases h with
  | absent frame => cases op <;> simp_all [Operation.frame?] <;> exact ⟨rfl, rfl, nofun, nofun⟩
  | _ => exact ⟨rfl, rfl, nofun, nofun⟩

theorem wakeOne_moves (r : WaitRoom) {op : Operation O}
    (hop : op = .room .wakeOne ∨ ∃ f, op = .unpin f) :
    Moves r ⟨op, .ok (.woke (!r.queue.isEmpty))⟩ r.wakeOne.2 := by
  cases hq : r.queue.waiting with
  | nil =>
    rw [WaitRoom.wakeOne_of_nil hq, WaitQueue.isEmpty, hq]
    obtain rfl | ⟨f, rfl⟩ := hop <;> exact .quiet ⟨rfl, rfl, nofun, nofun⟩
  | cons q rest =>
    rw [WaitRoom.wakeOne_of_cons hq, WaitQueue.isEmpty, hq]
    exact .woke hq hop rfl

/-- What is done in the room, by any call. -/
theorem Does.moves {reply : Reply} (hdoes : t.Does op (.ok (reply, t'))) (hnames : op.Names t) :
    Moves t.waiters ⟨op, .ok reply⟩ t'.waiters := by
  cases hdoes with
  | foundNone | handedOut | tookBack | pinned | marked => exact .quiet ⟨rfl, rfl, nofun, nofun⟩
  | chose run free waiters => rw [waiters]; exact .quiet ⟨rfl, rfl, nofun, nofun⟩
  | @unpinned f i info pins =>
    rw [waiters_dropPin]
    by_cases hlast : i.pins = 1
    · rw [if_neg (by omega), decide_eq_true hlast, Bool.true_and]
      exact wakeOne_moves t.waiters (.inr ⟨f, rfl⟩)
    · rw [if_pos (by omega), decide_eq_false hlast, Bool.false_and]
      exact .quiet ⟨rfl, rfl, nofun, nofun⟩
  | @waited op =>
    cases op with
    | makeParker => exact .madeParker
    | enqueue p => exact .enqueued (hnames p rfl)
    | wakeOne =>
      have hfst := fst_wakeOne t
      simp only [WaitRoom.Operation.apply]
      rw [show t.waiters.wakeOne.1 = !t.waiters.queue.isEmpty from hfst]
      exact wakeOne_moves t.waiters (.inl rfl)
    | unpark p => exact .unparked (hnames p rfl)
    | park p =>
      simp only [WaitRoom.Operation.apply]
      cases hpark : t.waiters.park? p with
      | none => exact .quiet ⟨rfl, rfl, nofun, by simp [Entry.CameBack]⟩
      | some r' => exact .cameBack hpark

theorem Intact.moves (h : Intact n t) (hnames : op.Names t) {outcome : Except Violation Reply}
    (hcall : op.call t = (outcome, t')) : Moves t.waiters ⟨op, outcome⟩ t'.waiters := by
  cases outcome with
  | ok reply => exact (h.does_of_call hcall).moves hnames
  | error v =>
    obtain ⟨hrefuses, rfl⟩ := h.call_error_iff.mp hcall
    exact .quiet hrefuses.quiet

/-- **One call**: queue and parkers stay what the calls tell. -/
theorem Records.moves (h : Records past r) (hmoves : Moves r e r') : Records (past ++ [e]) r' := by
  cases hmoves with
  | quiet hquiet => exact h.quiet hquiet
  | woke queue operation outcome => exact h.wakeOne queue operation outcome
  | enqueued made => exact h.enqueue made
  | madeParker => exact h.makeParker
  | unparked made => exact h.unpark made
  | cameBack park => exact h.park park

/-- **Any number of calls.** -/
theorem History.records (h : History (.ofSize n) past t) (hn : n ≤ wordBound) :
    Records past t.waiters := by
  induction h with
  | start => exact records_nil
  | call before names hcall ih => exact ih.moves ((before.intact hn).moves names hcall)

/-! ## Main statement -/

/-- A waiter is woken only out of the queue, the oldest first. -/
theorem Moves.of_woke (h : Moves r e r') (houtcome : e.outcome = .ok (.woke true)) :
    (e.operation = .room .wakeOne ∨ ∃ f, e.operation = .unpin f) ∧
    ∃ q rest, r.queue.waiting = q :: rest ∧ r' = ⟨⟨rest⟩, r.parkers.modify q Parker.unpark⟩ := by
  cases h with
  | quiet hquiet => simpa [Entry.woke, houtcome] using hquiet.woke
  | woke queue operation => exact ⟨operation, _, _, queue, rfl⟩
  | _ => cases houtcome

/-- Otherwise nobody leaves the queue, and only a parker that is unparked directly gets a wake-up.
-/
theorem Moves.of_not_woke (h : Moves r e r') (houtcome : e.outcome ≠ .ok (.woke true)) :
    r'.queue.waiting = r.queue.waiting ++ e.enqueued?.toList ∧
    ∀ p, e.operation ≠ .room (.unpark p) → r.parkers[p]? = some ⟨false⟩ →
      r'.parkers[p]? = some ⟨false⟩ := by
  cases h with
  | quiet hquiet => simp [hquiet.enqueued?]
  | woke _ _ outcome => exact absurd outcome houtcome
  | enqueued => exact ⟨rfl, fun _ _ hp => hp⟩
  | madeParker =>
    refine ⟨(List.append_nil _).symm, fun p _ hp => ?_⟩
    have hlt := (Array.getElem?_eq_some_iff.mp hp).1
    rw [WaitRoom.addParker, Array.getElem?_push_lt hlt, ← hp, Array.getElem?_eq_getElem hlt]
  | @unparked q =>
    refine ⟨(List.append_nil _).symm, fun p hop hp => ?_⟩
    have hqp : q ≠ p := fun heq => hop (heq ▸ rfl)
    rw [WaitRoom.unpark, Array.getElem?_modify, if_neg hqp, hp]
  | @cameBack q r' hpark =>
    obtain ⟨hq, rfl⟩ := WaitRoom.park?_eq_some.mp hpark
    refine ⟨(List.append_nil _).symm, fun p _ hp => ?_⟩
    have hqp : q ≠ p := by
      rintro rfl
      rw [hq] at hp
      contradiction
    rw [Array.getElem?_setIfInBounds_ne hqp, hp]

theorem waiting_ne_zero : t.waiting ≠ 0 ↔ t.waiters.queue.isEmpty = false := by
  simp [waiting, WaitQueue.size, WaitQueue.isEmpty, List.length_eq_zero_iff]

/-- The last pin of a frame wakes a waiter, if there is one. -/
theorem Intact.unpin_wakes_iff (h : Intact n t) (f : FrameNumber) :
    (∃ t', (Operation.unpin f).call t = (.ok (.woke true), t')) ↔
      (∃ i, t.info? f = some i ∧ i.pins = 1) ∧ t.waiting ≠ 0 := by
  rw [waiting_ne_zero]
  constructor
  · rintro ⟨t', hcall⟩
    have hdoes := h.does_of_call hcall
    generalize hreply : Reply.woke true = reply at hdoes
    cases hdoes with
    | unpinned info pins =>
      rw [Reply.woke.injEq, eq_comm, Bool.and_eq_true, decide_eq_true_eq,
        Bool.not_eq_true'] at hreply
      exact ⟨⟨_, info, hreply.1⟩, hreply.2⟩
  · rintro ⟨⟨i, hi, hpins⟩, hqueue⟩
    rw [h.valid.call_eq, Operation.apply, unpin_eq_of_pinned hi (by omega), hqueue,
      decide_eq_true hpins]
    exact ⟨_, rfl⟩

theorem call_room (op : WaitRoom.Operation) (t : FrameTable O) : (Operation.room op).call t =
    (.ok (op.apply t.waiters).1, { t with waiters := (op.apply t.waiters).2 }) := rfl

theorem wakeOne_wakes_iff :
    (∃ t', (Operation.room .wakeOne).call t = (.ok (.woke true), t')) ↔ t.waiting ≠ 0 := by
  have hfst : t.waiters.wakeOne.1 = !t.waiters.queue.isEmpty := fst_wakeOne t
  rw [waiting_ne_zero, call_room, WaitRoom.Operation.apply, hfst]
  cases t.waiters.queue.isEmpty <;> simp

/-- Without a pending wake-up the caller sleeps. -/
theorem call_park_of_none (hpark : t.waiters.park? p = none) :
    (Operation.room (.park p)).call t = (.ok (.returned false), t) := by
  simp [call_room, WaitRoom.Operation.apply, hpark]

/-- Whoever wants to sleep on a parker comes back if a wake-up is pending there, and takes it along.
-/
theorem Records.park_returns (h : Records past t.waiters) (p : Ticket) :
    ∃ returned t', (Operation.room (.park p)).call t = (.ok (.returned returned), t') ∧
      (returned = true ↔ Pending past p) ∧
      (Operation.room (.park p)).call t' = (.ok (.returned false), t') := by
  rw [← h.pending]
  cases hpark : t.waiters.park? p with
  | none =>
    have hparker : t.waiters.parkers[p]? ≠ some ⟨true⟩ := fun hparker =>
      nomatch hpark.symm.trans (WaitRoom.park?_eq_some.mpr ⟨hparker, rfl⟩)
    exact ⟨false, t, call_park_of_none hpark, iff_of_false nofun hparker, call_park_of_none hpark⟩
  | some r' =>
    obtain ⟨hparker, hr'⟩ := WaitRoom.park?_eq_some.mp hpark
    have hagain : r'.park? p = none := by
      simp [Option.eq_none_iff_forall_ne_some, WaitRoom.park?_eq_some, hr',
        Array.getElem?_setIfInBounds_self]
    refine ⟨true, { t with waiters := r' }, ?_, iff_of_true rfl hparker, call_park_of_none hagain⟩
    simp [call_room, WaitRoom.Operation.apply, hpark]

/-- **Wake-ups come in order, one for each frame that gets free of pins, and none is lost.** After
any sequence of calls of a pool, its queue and the parkers, those that stand in the queue are the
parkers that were put into it, in this order, less as many of them as waiters were woken. The next
call, whatever it is, does the following. To unpin a frame wakes a waiter exactly if this was the
last pin of the frame and somebody waits, and to wake one does so exactly if somebody waits. No
other call is answered with a wake-up. The waiter that is woken is the first that was put into the
queue and not yet woken: it leaves the queue, and its parker is unparked. A call that wakes no
waiter takes nobody out of the queue, puts a parker behind all others even if it stands there
already, and unparks no parker but the one that it is told to unpark. Whoever wants to sleep on a
parker comes back at once exactly if it was unparked, however often, since somebody last came back
from it; and if he tries to sleep again, he does.

The parkers may be unparked by others than the pool. A queue on its own is a pool of which nothing
but the queue is called. -/
theorem History.wakes_in_order (h : History (.ofSize n) past t) (hn : n ≤ wordBound) :
    (wakes past ≤ (enqueued past).length ∧
      t.waiters.queue.waiting = (enqueued past).drop (wakes past) ∧
      t.waiting = (enqueued past).length - wakes past) ∧
    (∀ f, (∃ t', (Operation.unpin f).call t = (.ok (.woke true), t')) ↔
      (∃ i, t.info? f = some i ∧ i.pins = 1) ∧ t.waiting ≠ 0) ∧
    ((∃ t', (Operation.room .wakeOne).call t = (.ok (.woke true), t')) ↔ t.waiting ≠ 0) ∧
    (∀ (op : Operation O) outcome t', op.Names t → op.call t = (outcome, t') →
      if outcome = .ok (.woke true) then
        (op = .room .wakeOne ∨ ∃ f, op = .unpin f) ∧
        ∃ p, (enqueued past)[wakes past]? = some p ∧
          t'.waiters = ⟨⟨t.waiters.queue.waiting.tail⟩, t.waiters.parkers.modify p Parker.unpark⟩
      else
        t'.waiters.queue.waiting =
          t.waiters.queue.waiting ++ (Entry.mk op outcome).enqueued?.toList ∧
        ∀ p, op ≠ .room (.unpark p) → t.waiters.parkers[p]? = some ⟨false⟩ →
          t'.waiters.parkers[p]? = some ⟨false⟩) ∧
    ∀ p, ∃ returned t', (Operation.room (.park p)).call t = (.ok (.returned returned), t') ∧
      (returned = true ↔ Pending past p) ∧
      (Operation.room (.park p)).call t' = (.ok (.returned false), t') := by
  have hintact := h.intact hn
  have hrecords := h.records hn
  refine ⟨⟨hrecords.wakes_le, hrecords.queue, hrecords.size_queue⟩, hintact.unpin_wakes_iff,
    wakeOne_wakes_iff, fun op outcome t' hnames hcall => ?_, hrecords.park_returns⟩
  have hmoves := hintact.moves hnames hcall
  split
  · next houtcome =>
    obtain ⟨hop, q, rest, hqueue, hroom⟩ := hmoves.of_woke houtcome
    refine ⟨hop, q, ?_, ?_⟩
    · rw [hrecords.getElem?_enqueued, hqueue, List.head?_cons]
    · rw [hroom, hqueue, List.tail_cons]
  · next houtcome => exact hmoves.of_not_woke houtcome

/-- Parker 0 queues up, parker 1 behind it, and parker 0 once more; both are woken, and the first
comes back although it was unparked twice. -/
def wakeUps : List (Entry Nat) :=
  [⟨.room .makeParker, .ok .done⟩,
    ⟨.room .makeParker, .ok .done⟩,
    ⟨.room (.enqueue 0), .ok .done⟩,
    ⟨.room (.enqueue 1), .ok .done⟩,
    ⟨.room (.enqueue 0), .ok .done⟩,
    ⟨.allocate 7 (.ofNat 3), .ok (.frame (some (.ofNat 0)))⟩,
    ⟨.pin (.ofNat 0), .ok .done⟩,
    ⟨.unpin (.ofNat 0), .ok (.woke false)⟩,
    ⟨.unpin (.ofNat 0), .ok (.woke true)⟩,
    ⟨.room .wakeOne, .ok (.woke true)⟩,
    ⟨.room (.unpark 0), .ok .done⟩,
    ⟨.room (.park 0), .ok (.returned true)⟩]

theorem exists_history_wakeUps : ∃ t, History (.ofSize 1) wakeUps t :=
  ⟨_, History.start.replay
    (rfl : replay? (.ofSize 1) (wakeUps.map Entry.operation) = some (wakeUps, _))⟩

theorem wakeUps_in_order : ∃ t, History (.ofSize 1) wakeUps t ∧
    t.waiters.queue.waiting = [0] ∧ t.waiting = 1 ∧
    ∃ t', (Operation.room .wakeOne).call t = (.ok (.woke true), t') ∧
      t'.waiters.queue.waiting = [] := by
  obtain ⟨t, h⟩ := exists_history_wakeUps
  obtain ⟨⟨-, hqueue, hwaiting⟩, -, hwakes, hcalls, -⟩ := h.wakes_in_order (by decide)
  have hone : t.waiting = 1 := hwaiting
  obtain ⟨t', hcall⟩ := hwakes.mpr (by omega)
  have hcalled := hcalls _ _ _ (by simp [Operation.Names, WaitRoom.Operation.parker?]) hcall
  rw [if_pos rfl] at hcalled
  obtain ⟨-, p, -, hroom⟩ := hcalled
  exact ⟨t, h, hqueue, hone, t', hcall, by rw [hroom, hqueue]; rfl⟩

end FrameTable

end DemandPaging
