import DemandPaging.Proofs.LastFrame
import DemandPaging.Proofs.Likeness
import DemandPaging.Proofs.Turns
import DemandPaging.Proofs.WakeUps

/-!
# One frame serves the whole queue

Calls that need one page each wait in the queue while every frame is pinned. When a frame loses its
last pin, the first of them is woken. It gets its page in that frame, uses it and takes its pin off
again, which wakes the next. The chain ends where a page lies in another frame, which is still pinned
when the call is done with it: that call uses its wake-up up, and nobody behind it is woken.
-/

namespace DemandPaging

open Machine

/-! ## One call is served -/

namespace Request

variable {m m' k : Machine} {p : UserProcess} {r : Request}

theorem Single.contains {page : PageNumber} (h : r.Single p page) : p.contains page = true := by
  cases h with
  | fault contains => exact contains
  | read spans => exact spans.contains
  | write spans => exact spans.contains

/-- Attempts that end alike lead to the same answer. -/
theorem exists_served {x y : EStateM.Result (Stop VmError) Machine Grant} {a : Answer}
    (h : Corresponds true Action.SameGrant x y) (hx : r.served p x = (.finished (.returned a), m)) :
    ∃ m', r.served p y = (.finished (.returned a), m') ∧ m.Like true m' := by
  cases h with
  | error like =>
    next stop m₁ m₁' =>
    obtain ⟨hfailed, -⟩ := Prod.mk.inj hx
    unfold Call.afterFailure at hfailed
    split at hfailed
    · cases hfailed
    · split at hfailed <;> cases hfailed
  | @ok grant grant' m₁ m₁' value like =>
    cases value with
    | queued t t' => cases hx
    | pinned f =>
      have hvisit := Action.corresponds_visit like p r f
      rw [served] at hx ⊢
      cases hrun : (r.visit p f).run m₁ with
      | error stop m₂ =>
        rw [hrun] at hx
        cases stop <;> cases hx
      | ok a' m₂ =>
        rw [hrun] at hx hvisit
        cases hx
        cases hrun' : (r.visit p f).run m₁' with
        | error stop m₂' =>
          rw [hrun'] at hvisit
          cases hvisit
        | ok b m₂' =>
          rw [hrun'] at hvisit
          cases hvisit with
          | ok value like =>
            cases value
            exact ⟨m₂', rfl, like⟩

end Request

/-- A call that needs one page and has queued up for a frame. -/
structure Waiter where
  process : UserProcess
  request : Request
  page : PageNumber
  ticket : Ticket

namespace Waiter

/-- The call as it waits. -/
def parked (w : Waiter) : Call := { w.request.toCall w.process with stage := .waiting w.ticket }

/-- The call as if it had just been made. -/
def direct (w : Waiter) : Call := w.request.toCall w.process

/-- The process of the call lives, and may access the page in the way it asks for. -/
structure Permitted (w : Waiter) (m : Machine) : Prop where
  single : w.request.Single w.process w.page
  registered : m.Registered w.process
  permitted : ∃ readOnly, m.readOnly? w.process w.page = some readOnly ∧
    (w.request.kind.isWrite = true → readOnly = false)

/-- The page that is asked for lies in another frame than `f`. -/
def elsewhere (w : Waiter) (m : Machine) (f : FrameNumber) : Bool :=
  ((m.table w.process).translate? w.page).any (· ≠ f)

variable {w : Waiter} {m m' : Machine} {l : Ledger} {f : FrameNumber}

theorem Permitted.sameRights (h : w.Permitted m) (hs : m.SameRights m' l.processes)
    (hp : w.process ∈ l.processes) : w.Permitted m' where
  single := h.single
  registered := (hs.registry _).trans h.registered
  permitted := by
    rw [hs.readOnly _ hp]
    exact h.permitted

/-- A page lies elsewhere if and only if the directory has it in a pinned frame. -/
theorem elsewhere_iff (h : m.OnlyIdle l f) (hp : m.Registered w.process) :
    w.elsewhere m f = true ↔ ∃ g ∈ l.pinned, m.ownerOf? g = some (w.process.pid, w.page) := by
  simp only [elsewhere, Option.any_eq_true, decide_eq_true_eq]
  constructor
  · rintro ⟨g, hmapped, hne⟩
    obtain ⟨i, hi, howner, hpage⟩ := h.sound.agreement.mapped _ _ g hp hmapped
    exact ⟨g, h.pinned g hne (FrameTable.lt_of_info? hi), ownerOf?_eq_some.mpr ⟨i, hi, howner, hpage⟩⟩
  · rintro ⟨g, hg, howner⟩
    obtain ⟨i, hi, howner, hpage⟩ := ownerOf?_eq_some.mp howner
    obtain ⟨e, he, hf⟩ := h.sound.entry_of_pinned hg hi howner hp
    refine ⟨g, ?_, fun heq => h.unpinned (heq ▸ hg)⟩
    rw [translate?_table, ← hpage, he, Option.bind_some, hf]

section Served

variable (h : m.OnlyIdle l f) (hp : w.process ∈ l.processes) (hw : w.Permitted m)
include h hp hw

/-- The call has its page in frame `g`, uses it and lets go of it. -/
theorem exists_visit_of_resolve {g : FrameNumber} {m₁ : Machine}
    (hrun : (Action.resolve w.process w.page w.request.kind).run m = .ok (.pinned g) m₁) :
    ∃ a m', (w.request.visit w.process g).run m₁ = .ok a m' ∧ m.Passes m' l f ∧
      m'.waiters = (if w.elsewhere m f then m.waiters else m.waiters.wakeOne.2) := by
  obtain ⟨hg, hsame⟩ := Action.frame_of_resolve h hp hrun
  have helsewhere : w.elsewhere m f = true ↔ g ≠ f := by
    rw [hg, elsewhere]
    cases (m.table w.process).translate? w.page <;> simp
  have hspec := Action.resolve_spec h.sound hp w.page w.request.kind
  rw [hrun] at hspec
  cases hspec with
  | pinned registered sound keeps info idle_le le_idle waiters orderly =>
    obtain ⟨i, hi, howner, hpage⟩ := info
    obtain ⟨a, m', hvisit, hsound', hinfo', hwaiters', hrights'⟩ :=
      Action.exists_visit sound hp hi howner hpage hw.single
    have hpins : i.pins = l.pinned.count g + 1 := by
      rw [sound.agreement.pins g i hi, h.loose, List.count_cons_self, List.count_nil, Nat.add_zero]
    have hlt := FrameTable.lt_of_info? hi
    rw [orderly.size] at hlt
    refine ⟨a, m', hvisit, h.passes hw.registered keeps hsame hi howner hsound' hinfo'
      (orderly.sameRights.trans hrights'), ?_⟩
    rw [hwaiters', waiters]
    by_cases hgf : g = f
    · rw [if_neg, if_neg]
      · rw [helsewhere]
        exact not_not_intro hgf
      · rw [hpins, hgf, List.count_eq_zero.mpr h.unpinned]
        decide
    · have hcount := List.count_pos_iff.mpr (h.pinned g hgf hlt)
      rw [if_pos (by omega), if_pos (helsewhere.mpr hgf)]

variable (himage : w.process.image.Answers)
  (hpins : ∀ g ∈ l.pinned, m.ownerOf? g = some (w.process.pid, w.page) →
    l.pinned.count g < FrameInfo.maxPins)
include himage hpins

omit hp in
/-- The attempt of a call that was woken succeeds. -/
theorem exists_resolve (hfails : ∀ err m', (Action.resolve w.process w.page w.request.kind).run m =
      .error (.error err) m' → ¬ err.OfTransfer) :
    ∃ g m', (Action.resolve w.process w.page w.request.kind).run m = .ok (.pinned g) m' := by
  obtain ⟨readOnly, hentry, hkind⟩ := hw.permitted
  obtain ⟨e, he, rfl⟩ := Option.map_eq_some_iff.mp hentry
  refine Action.exists_resolve_of_onlyIdle h hw.registered he ?_ hw.single.contains himage
    (fun g i hf hi => ?_) hfails
  · cases hwrite : w.request.kind.isWrite with
    | false => rfl
    | true => exact hkind hwrite
  · rw [h.pins_eq hi]
    by_cases hg : g ∈ l.pinned
    · obtain ⟨j, hj, howner, hpage⟩ := h.sound.info_of_entry hw.registered he hf
      exact hpins g hg (ownerOf?_eq_some.mpr ⟨j, hj, howner, hpage⟩)
    · rw [List.count_eq_zero.mpr hg]
      decide

/-- **A call that was woken is served.** -/
theorem exists_served {room : WaitRoom} (hpark : m.waiters.park? w.ticket = some room)
    (hfails : ¬ (w.parked.run m).1.FailsInTransfer) :
    ∃ a m', w.parked.run m = (.finished (.returned a), m') ∧ m.Passes m' l f ∧
      m'.waiters = (if w.elsewhere m f then room else room.wakeOne.2) ∧
      ∀ k, m.Like true k → ∃ k', w.direct.run k = (.finished (.returned a), k') ∧
        m'.Like true k' := by
  let m₀ := (m.withFrames { m.kernel.frames with waiters := room }).noted
    (.woken w.process.pid w.page)
  have halike : Alike m m₀ := (Alike.withWaiters m room).trans (.noted _ _)
  have hrun : w.parked.run m = w.request.served w.process
      ((Action.resolve w.process w.page w.request.kind).run m₀) :=
    Call.run_single_woken hw.single hpark
  have hrights : m.SameRights m₀ l.processes := (Orderly.alike halike _).sameRights
  have h₀ := h.alike halike
  have hw₀ := hw.sameRights hrights hp
  have howners : ∀ g, m₀.ownerOf? g = m.ownerOf? g := halike.ownerOf?
  have hpins₀ : ∀ g ∈ l.pinned, m₀.ownerOf? g = some (w.process.pid, w.page) →
      l.pinned.count g < FrameInfo.maxPins := fun g hg howner => hpins g hg (howners g ▸ howner)
  obtain ⟨g, m₁, hresolve⟩ := w.exists_resolve h₀ hw₀ himage hpins₀ fun err m' herr htransfer => by
    refine hfails ?_
    rw [hrun, herr, Request.served, Call.afterFailure, if_neg (System.toCall_begins _ _).2]
    exact htransfer
  obtain ⟨a, m', hvisit, hpasses, hwaiters⟩ :=
    w.exists_visit_of_resolve h₀ hp hw₀ hresolve
  have hserved : w.parked.run m = (.finished (.returned a), m') := by
    rw [hrun, hresolve, Request.served, hvisit]
    rfl
  refine ⟨a, m', hserved, ⟨hpasses.onlyIdle, hrights.trans hpasses.rights,
    fun g hg => (hpasses.owners g hg).trans (howners g)⟩, hwaiters, fun k hk => ?_⟩
  have hlike : m₀.Like true k := hk
  have hcorresponds := Action.corresponds_resolve hlike (fun heq => by cases heq) w.process w.page
    w.request.kind
  rw [direct, Call.run_single hw.single k]
  exact Request.exists_served hcorresponds (hrun.symm.trans hserved)

end Served

end Waiter

/-! ## The whole queue -/

namespace Call

variable {c : Call} {m : Machine} {t : Ticket}

/-- Run calls one after the other, each until it ends or falls asleep. -/
def runAll : List Call → Machine → List Progress × Machine
  | [], m => ([], m)
  | c :: cs, m => ((c.run m).1 :: (runAll cs (c.run m).2).1, (runAll cs (c.run m).2).2)

theorem stepsLeft_pos (c : Call) : 0 < c.stepsLeft := by
  unfold stepsLeft
  induction c.tasks with
  | nil => exact Nat.succ_pos 4
  | cons t ts ih => exact Nat.lt_of_lt_of_le ih (Nat.le_add_left ..)

/-- A call that sleeps stays as it is. -/
theorem run_of_asleep (hstage : c.stage = .waiting t) (hpark : m.waiters.park? t = none) :
    c.run m = (.ongoing c, m) := by
  have hasleep : c.isAsleep m = true := by
    rw [isAsleep, hstage]
    exact Option.isNone_iff_eq_none.mpr hpark
  obtain ⟨k, hk⟩ := Nat.exists_eq_succ_of_ne_zero (Nat.ne_of_gt c.stepsLeft_pos)
  rw [run, hk, runFor, step_of_asleep hstage hpark]
  exact if_pos hasleep

end Call

namespace Waiter

variable {w : Waiter} {ws : List Waiter} {m m' k : Machine} {l : Ledger} {f : FrameNumber}

/-- Calls in the queue sleep. -/
theorem park?_of_queued {ts : List Ticket} (h : m.waiters.Serves ts)
    (hw : w.ticket ∈ m.waiters.queue.waiting) : m.waiters.park? w.ticket = none := by
  have hparker := (h.asleep w.ticket hw).2
  cases hpark : m.waiters.park? w.ticket with
  | none => rfl
  | some room =>
    rw [WaitRoom.park?_eq_some, hparker] at hpark
    simp at hpark

theorem runAll_of_asleep (h : ∀ w ∈ ws, m.waiters.park? w.ticket = none) :
    Call.runAll (ws.map parked) m = (ws.map fun w => .ongoing w.parked, m) := by
  induction ws with
  | nil => rfl
  | cons w ws ih =>
    have hrun : w.parked.run m = (.ongoing w.parked, m) :=
      Call.run_of_asleep rfl (h w List.mem_cons_self)
    have hrest := ih fun w' hw' => h w' (List.mem_cons_of_mem _ hw')
    rw [List.map_cons, Call.runAll, hrun]
    dsimp only
    rw [hrest, List.map_cons]

/-- The frame `f` is to serve the calls `ws`: the first was woken, the others are in the queue. -/
structure Lined (ws : List Waiter) (m : Machine) (l : Ledger) (f : FrameNumber) : Prop where
  onlyIdle : m.OnlyIdle l f
  known : ∀ w ∈ ws, w.process ∈ l.processes
  permitted : ∀ w ∈ ws, w.Permitted m
  images : ∀ w ∈ ws, w.process.image.Answers
  pins : ∀ w ∈ ws, ∀ g ∈ l.pinned, m.ownerOf? g = some (w.process.pid, w.page) →
    l.pinned.count g < FrameInfo.maxPins
  serves : m.waiters.Serves (ws.map ticket)
  queue : m.waiters.queue.waiting = (ws.map ticket).tail

/-- How many of the calls the frame serves: all up to the first whose page lies elsewhere. -/
def reach (ws : List Waiter) (m : Machine) (f : FrameNumber) : Nat :=
  (ws.map (·.elsewhere m f)).idxOf true + 1

/-- The frame serves all calls if and only if no page lies elsewhere, except for the last. -/
theorem length_le_reach_iff :
    ws.length ≤ reach ws m f ↔ ∀ w ∈ ws.dropLast, w.elsewhere m f = false := by
  induction ws with
  | nil => exact ⟨fun _ _ hw => absurd hw List.not_mem_nil, fun _ => Nat.zero_le _⟩
  | cons w ws ih =>
    cases ws with
    | nil => exact ⟨fun _ _ hw => absurd hw List.not_mem_nil, fun _ => Nat.le_add_left 1 _⟩
    | cons w' ws =>
      rw [List.dropLast_cons_cons, List.forall_mem_cons, ← ih, reach, reach, List.map_cons,
        List.idxOf_cons]
      cases w.elsewhere m f <;> simp

/-- The first `n` of the calls take turns: each is awake when it is its turn, while those behind it
sleep. The others sleep on. -/
def TakeTurns : Nat → List Waiter → Machine → Prop
  | 0, ws, m => ∀ w ∈ ws, w.parked.isAsleep m = true
  | _ + 1, [], _ => True
  | n + 1, w :: ws, m => w.parked.isAsleep m = false ∧
      (∀ w' ∈ ws, w'.parked.isAsleep m = true) ∧ TakeTurns n ws (w.parked.run m).2

/-- The first `n` of the calls return in turn, as if they had been made one after the other. The
others sleep. -/
structure Relayed (ws : List Waiter) (n : Nat) (m m' : Machine) (answers : List Answer) : Prop where
  run : Call.runAll (ws.map parked) m =
    (answers.map (.finished <| .returned ·) ++ (ws.drop n).map (.ongoing ·.parked), m')
  turns : TakeTurns n ws m
  queue : m'.waiters.queue.waiting = (ws.drop n).map ticket
  direct : ∀ k, m.Like true k → ∃ k', Call.runAll ((ws.take n).map direct) k =
    (answers.map (.finished <| .returned ·), k') ∧ m'.Like true k'

namespace Lined

theorem elsewhere_congr (h : Lined ws m l f) (hpasses : m.Passes m' l f) (hw : w ∈ ws) :
    w.elsewhere m' f = w.elsewhere m f := by
  have hpermitted := (h.permitted w hw).sameRights hpasses.rights (h.known w hw)
  rw [Bool.eq_iff_iff, elsewhere_iff hpasses.onlyIdle hpermitted.registered,
    elsewhere_iff h.onlyIdle (h.permitted w hw).registered]
  refine exists_congr fun g => and_congr_right fun hg => ?_
  rw [hpasses.owners g hg]

theorem reach_cons (h : Lined (w :: ws) m l f) (hpasses : m.Passes m' l f) :
    reach (w :: ws) m f = if w.elsewhere m f then 1 else reach ws m' f + 1 := by
  have hrest : ws.map (·.elsewhere m' f) = ws.map (·.elsewhere m f) :=
    List.map_congr_left fun w' hw' => h.elsewhere_congr hpasses (List.mem_cons_of_mem w hw')
  rw [reach, reach, List.map_cons, hrest, List.idxOf_cons]
  cases w.elsewhere m f <;> rfl

/-- It is the turn of the first call. -/
theorem exists_park (h : Lined (w :: ws) m l f) : ∃ room, m.waiters.park? w.ticket = some room ∧
    room.Serves (ws.map ticket) ∧ room.queue.waiting = ws.map ticket := by
  have hnodup := List.nodup_cons.mp h.serves.nodup
  have hout : w.ticket ∉ m.waiters.queue.waiting := by
    rw [h.queue]
    exact hnodup.1
  have hpark := WaitRoom.park?_eq_some.mpr ⟨h.serves.awake w.ticket List.mem_cons_self hout, rfl⟩
  obtain ⟨hserves, hqueue⟩ := h.serves.park hpark
  exact ⟨_, hpark, hserves, hqueue ▸ h.queue⟩

theorem isAsleep_of_mem (h : Lined (w :: ws) m l f) {w' : Waiter} (hw' : w' ∈ ws) :
    w'.parked.isAsleep m = true := by
  have hqueued : w'.ticket ∈ m.waiters.queue.waiting := by
    rw [h.queue]
    exact List.mem_map_of_mem hw'
  exact Option.isNone_iff_eq_none.mpr (park?_of_queued h.serves hqueued)

/-- **One turn.** The first call is served, and the next one is woken, unless the page of the first
lies elsewhere. -/
theorem step (h : Lined (w :: ws) m l f) (hfails : ¬ (w.parked.run m).1.FailsInTransfer) :
    ∃ a m', w.parked.run m = (.finished (.returned a), m') ∧ m.Passes m' l f ∧
      (∀ k, m.Like true k → ∃ k', w.direct.run k = (.finished (.returned a), k') ∧
        m'.Like true k') ∧
      if w.elsewhere m f then
        m'.waiters.Serves (ws.map ticket) ∧ m'.waiters.queue.waiting = ws.map ticket
      else Lined ws m' l f := by
  obtain ⟨room, hpark, hserves, hqueue⟩ := h.exists_park
  obtain ⟨a, m', hrun, hpasses, hwaiters, hlike⟩ :=
    exists_served h.onlyIdle (h.known w List.mem_cons_self) (h.permitted w List.mem_cons_self)
      (h.images w List.mem_cons_self) (h.pins w List.mem_cons_self) hpark hfails
  refine ⟨a, m', hrun, hpasses, hlike, ?_⟩
  cases helse : w.elsewhere m f with
  | true =>
    rw [helse, if_pos rfl] at hwaiters
    rw [if_pos rfl, hwaiters]
    exact ⟨hserves, hqueue⟩
  | false =>
    rw [helse, if_neg Bool.false_ne_true] at hwaiters
    rw [if_neg Bool.false_ne_true]
    refine ⟨hpasses.onlyIdle, fun w' hw' => h.known w' (List.mem_cons_of_mem w hw'),
      fun w' hw' => ?_, fun w' hw' => h.images w' (List.mem_cons_of_mem w hw'),
      fun w' hw' g hg howner => ?_, hwaiters ▸ hserves.wakeOne, ?_⟩
    · have hmem := List.mem_cons_of_mem w hw'
      exact (h.permitted w' hmem).sameRights hpasses.rights (h.known w' hmem)
    · rw [hpasses.owners g hg] at howner
      exact h.pins w' (List.mem_cons_of_mem w hw') g hg howner
    · rw [hwaiters, ← List.drop_one, ← hqueue]
      exact room.queue_wakeMany 1

/-- **The calls are served in the order in which they queued up**, as far as the frame serves them. -/
theorem relayed (h : Lined ws m l f)
    (hfails : ∀ pr ∈ (Call.runAll (ws.map parked) m).1, ¬ pr.FailsInTransfer) :
    ∃ answers m', Relayed ws (reach ws m f) m m' answers ∧ m.Passes m' l f := by
  induction ws generalizing m with
  | nil =>
    exact ⟨[], m, ⟨rfl, trivial, h.queue, fun k hk => ⟨k, rfl, hk⟩⟩, .refl h.onlyIdle⟩
  | cons w ws ih =>
    obtain ⟨a, m₁, hrun, hpasses, hlike, hnext⟩ := h.step (hfails _ List.mem_cons_self)
    obtain ⟨room, hpark, -⟩ := h.exists_park
    have hawake : w.parked.isAsleep m = false := Option.isNone_eq_false_iff.mpr (hpark ▸ rfl)
    have hbehind : ∀ w' ∈ ws, w'.parked.isAsleep m = true := fun _ => h.isAsleep_of_mem
    have hall : Call.runAll ((w :: ws).map parked) m =
        (.finished (.returned a) :: (Call.runAll (ws.map parked) m₁).1,
          (Call.runAll (ws.map parked) m₁).2) := by
      rw [List.map_cons, Call.runAll, hrun]
    rw [h.reach_cons hpasses]
    split at hnext
    · -- nobody else is woken
      next helse =>
      rw [if_pos helse]
      have hpark₁ : ∀ w' ∈ ws, m₁.waiters.park? w'.ticket = none := fun w' hw' =>
        park?_of_queued hnext.1 (hnext.2 ▸ List.mem_map_of_mem hw')
      refine ⟨[a], m₁, ⟨?_, ⟨hawake, hbehind, fun w' hw' => ?_⟩, hnext.2, fun k hk => ?_⟩, hpasses⟩
      · rw [hall, runAll_of_asleep hpark₁]
        rfl
      · rw [hrun]
        exact Option.isNone_iff_eq_none.mpr (hpark₁ w' hw')
      · obtain ⟨k', hk', hlike'⟩ := hlike k hk
        refine ⟨k', ?_, hlike'⟩
        rw [List.take_succ_cons, List.take_zero, List.map_singleton, Call.runAll, hk']
        rfl
    · next helse =>
      rw [if_neg helse]
      obtain ⟨answers, m', hrelayed, hpasses'⟩ := ih hnext fun pr hpr =>
        hfails pr (by rw [hall]; exact List.mem_cons_of_mem _ hpr)
      refine ⟨a :: answers, m', ⟨?_, ⟨hawake, hbehind, ?_⟩, hrelayed.queue, fun k hk => ?_⟩,
        hpasses.trans hpasses'⟩
      · rw [hall, hrelayed.run]
        rfl
      · rw [hrun]
        exact hrelayed.turns
      · obtain ⟨k₁, hk₁, hlike₁⟩ := hlike k hk
        obtain ⟨k', hk', hlike'⟩ := hrelayed.direct k₁ hlike₁
        refine ⟨k', ?_, hlike'⟩
        rw [List.take_succ_cons, List.map_cons, Call.runAll, hk₁]
        dsimp only
        rw [hk', List.map_cons]

end Lined

end Waiter

/-! ## A guard is dropped -/

namespace System

variable {s : System} {ws : List Waiter} {broken : List ProcessId} {i : Nat} {g : HeldPage}
  {j : FrameInfo ProcessId}

theorem Reachable.serves {config : Config} {swap : Swap} {m : Machine}
    (hboot : Machine.boot config swap = .ok m) (h : Reachable HasRoom (ofMachine m) s) :
    s.machine.waiters.Serves s.tickets :=
  h.invariant_of_sound (P := fun t => t.machine.waiters.Serves t.tickets) (sound_boot hboot)
    (serves_boot hboot).1 fun _ mv _ _ ht _ hserves => (shifted ht hserves mv).serves

/-- Every frame is pinned, and the calls `ws` and no others are in flight and wait in this order. -/
structure Crowded (s : System) (ws : List Waiter) : Prop where
  pinned : ∀ f i, s.machine.frameInfo? f = some i → i.pins ≠ 0
  calls : s.calls.Perm (ws.map Waiter.parked)
  queue : s.machine.waiters.queue.waiting = ws.map Waiter.ticket
  permitted : ∀ w ∈ ws, w.Permitted s.machine
  pins : ∀ w ∈ ws, ∀ f i, (s.machine.table w.process).translate? w.page = some f →
    s.machine.frameInfo? f = some i → i.pins < FrameInfo.maxPins

/-- The system after the drop of a page that is held. -/
theorem after_drop (h : s.Sound loose broken) (hg : s.held[i]? = some g)
    (hj : s.machine.frameInfo? g.pin.frame = some j) :
    s.after (.drop i) = { s with
      machine := s.machine.withFrames (s.machine.kernel.frames.dropPin g.pin.frame j)
      held := s.held.eraseIdx i } := by
  obtain ⟨j', hj', hpins, -⟩ := h.machine.info_of_pinned (mem_pins_of_held (List.mem_of_getElem? hg))
  obtain rfl := Option.some.inj (hj.symm.trans hj')
  simp only [after, move, hg, perform, Action.run_unpin hj hpins]

section Drop

variable (hsound : s.Sound [] broken) (hg : s.held[i]? = some g)
  (hj : s.machine.frameInfo? g.pin.frame = some j)
include hsound hg hj

/-- The page had one pin, and the others stay. -/
theorem pins_after_drop {f : FrameNumber} {i' : FrameInfo ProcessId}
    (hi' : s.machine.frameInfo? f = some i') :
    i'.pins = (g.pin.frame :: (s.after (.drop i)).pins).count f := by
  rw [hsound.machine.agreement.pins f i' hi', List.count_nil, Nat.add_zero, after_drop hsound hg hj]
  exact (pins_perm_held hg).count_eq f

theorem sound_after_drop :
    (s.after (.drop i)).machine.Sound ⟨s.processes, (s.after (.drop i)).pins, [], broken⟩ := by
  rw [after_drop hsound hg hj]
  exact (hsound.machine.perm (pins_perm_held hg)).dropPin rfl hj

theorem sameRights_drop : s.machine.SameRights (s.after (.drop i)).machine s.processes := by
  rw [after_drop hsound hg hj]
  exact (Orderly.dropPin hj _).sameRights

theorem frameInfo?_after_drop (f : FrameNumber) : (s.after (.drop i)).machine.frameInfo? f =
    if f = g.pin.frame then some { j with pins := j.pins - 1 } else s.machine.frameInfo? f := by
  rw [after_drop hsound hg hj]
  exact FrameTable.info?_dropPin hj f

variable (h : s.Crowded ws) (honly : j.pins = 1)
include h honly

/-- When the only pin of a frame is dropped, no other frame is without a pin. -/
theorem Crowded.onlyIdle (hlives : s.machine.Registered g.process) :
    (s.after (.drop i)).machine.OnlyIdle ⟨s.processes, (s.after (.drop i)).pins, [], broken⟩
      g.pin.frame := by
  have hrights := sameRights_drop hsound hg hj
  obtain ⟨j', hj', howner, -⟩ := (hsound.held g (List.mem_of_getElem? hg)).2
  obtain rfl := Option.some.inj (hj.symm.trans hj')
  refine ⟨sound_after_drop hsound hg hj, rfl, ?_, fun f hne hlt => ?_, _, g.process.pid,
    (frameInfo?_after_drop hsound hg hj _).trans (if_pos rfl), howner, ?_⟩
  · have hcount := pins_after_drop hsound hg hj hj
    rw [honly, List.count_cons_self, Nat.right_eq_add] at hcount
    exact List.count_eq_zero.mp hcount
  · rw [hrights.size] at hlt
    obtain ⟨i', hi'⟩ : ∃ i', s.machine.frameInfo? f = some i' := ⟨_, Array.getElem?_eq_getElem hlt⟩
    have hpinned := h.pinned f i' hi'
    rw [pins_after_drop hsound hg hj hi', List.count_cons_of_ne (Ne.symm hne)] at hpinned
    exact List.count_pos_iff.mp (Nat.pos_of_ne_zero hpinned)
  · rw [hrights.registry, show s.machine.process? g.process.pid = some g.process from hlives]
    exact Option.some_ne_none _

/-- When the only pin of a frame is dropped, the calls line up for the frame. -/
theorem Crowded.lined (hserves : s.machine.waiters.Serves s.tickets)
    (himages : ∀ p ∈ s.processes, p.image.Answers) (hlives : s.machine.Registered g.process) :
    Waiter.Lined ws (s.after (.drop i)).machine
      ⟨s.processes, (s.after (.drop i)).pins, [], broken⟩ g.pin.frame := by
  have hidle := h.onlyIdle hsound hg hj honly hlives
  have hrights := sameRights_drop hsound hg hj
  have hknown : ∀ w ∈ ws, w.process ∈ s.processes := fun w hw =>
    hsound.machine.census.mem (h.permitted w hw).registered
  have hpermitted : ∀ w ∈ ws, w.Permitted (s.after (.drop i)).machine := fun w hw =>
    (h.permitted w hw).sameRights (l := ⟨s.processes, [], [], []⟩) hrights (hknown w hw)
  refine ⟨hidle, hknown, hpermitted, fun w hw => himages _ (hknown w hw),
    fun w hw f hf howns => ?_, ?_, ?_⟩
  · have hne : f ≠ g.pin.frame := fun heq => hidle.unpinned (heq ▸ hf)
    obtain ⟨i', hi', howner, hpage⟩ := ownerOf?_eq_some.mp howns
    obtain ⟨e, he, hframe⟩ :=
      hidle.sound.entry_of_pinned hf hi' howner (hpermitted w hw).registered
    rw [frameInfo?_after_drop hsound hg hj, if_neg hne] at hi'
    rw [after_drop hsound hg hj, hpage] at he
    have hlt := h.pins w hw f i' (Option.bind_eq_some_iff.mpr ⟨e, he, hframe⟩) hi'
    rw [pins_after_drop hsound hg hj hi', List.count_cons_of_ne (Ne.symm hne)] at hlt
    exact hlt
  · have hperm : (s.after (.drop i)).tickets.Perm (ws.map Waiter.ticket) := by
      rw [tickets, (kept_drop s i).2]
      refine (h.calls.filterMap _).trans (.of_eq ?_)
      rw [List.filterMap_map, ← List.filterMap_eq_map]
      rfl
    exact (shifted_drop hsound hserves i).serves.perm hperm
  · have hwaiters : (s.after (.drop i)).machine.waiters =
        if 1 < j.pins then s.machine.waiters else s.machine.waiters.wakeOne.2 := by
      rw [after_drop hsound hg hj]
      exact FrameTable.waiters_dropPin ..
    rw [honly, if_neg (Nat.lt_irrefl 1)] at hwaiters
    rw [hwaiters, ← List.drop_one, ← h.queue]
    exact s.machine.waiters.queue_wakeMany 1

end Drop

/-- **One frame serves the queue up to the first call whose page lies elsewhere.** Let every frame be
pinned, and let calls wait that need one page each, which they may access. Let a guard drop the only
pin of its frame, and let the calls run one after the other without a page that cannot be saved or
loaded. Then the calls take turns in the order in which they queued up: each is woken by the one before
it, returns, and has the effect that it has when it is made directly. But a call whose page lies in a
frame that another guard pins wakes nobody, and the calls behind it sleep on although the dropped frame
is without a pin. So all calls return if and only if no page lies elsewhere, except for the last. The
frames of the other guards keep their pages and pins. -/
theorem relayed_of_drop {config : Config} {swap : Swap} {m : Machine}
    (hboot : Machine.boot config swap = .ok m) (hs : Reachable Trusts (ofMachine m) s)
    (h : s.Crowded ws) (hg : s.held[i]? = some g) (hlives : s.machine.Registered g.process)
    (hj : s.machine.frameInfo? g.pin.frame = some j) (honly : j.pins = 1)
    (hfails : ∀ pr ∈ (Call.runAll (ws.map Waiter.parked) (s.after (.drop i)).machine).1,
      ¬ pr.FailsInTransfer) :
    ∃ answers m', Waiter.Relayed ws (Waiter.reach ws s.machine g.pin.frame)
        (s.after (.drop i)).machine m' answers ∧
      (m'.waiters.queue.waiting = [] ↔
        ∀ w ∈ ws.dropLast, w.elsewhere s.machine g.pin.frame = false) ∧
      (m'.frameInfo? g.pin.frame).map FrameInfo.pins = some 0 ∧
      ∀ d ∈ (s.after (.drop i)).held, (m'.frameInfo? d.pin.frame).map FrameInfo.unmarked =
        (s.machine.frameInfo? d.pin.frame).map FrameInfo.unmarked := by
  obtain ⟨broken, hhistory⟩ := hs.history
  have hsound := hhistory.answers hboot
  have hserves := (hs.mono fun _ _ htrusts => htrusts.1).serves hboot
  have hlined := h.lined hsound hg hj honly hserves hs.answers hlives
  obtain ⟨answers, m', hrelayed, hpasses⟩ := hlined.relayed hfails
  have hreach : Waiter.reach ws (s.after (.drop i)).machine g.pin.frame =
      Waiter.reach ws s.machine g.pin.frame := by
    rw [after_drop hsound hg hj]
    rfl
  rw [hreach] at hrelayed
  refine ⟨answers, m', hrelayed, ?_, ?_, fun d hd => ?_⟩
  · rw [hrelayed.queue, List.map_eq_nil_iff, List.drop_eq_nil_iff, Waiter.length_le_reach_iff]
  · obtain ⟨i', -, hi', -⟩ := hpasses.onlyIdle.owned
    rw [hi', Option.map_some, hpasses.onlyIdle.pins_eq hi',
      List.count_eq_zero.mpr hpasses.onlyIdle.unpinned]
  · have hd' := mem_pins_of_held hd
    have hne : d.pin.frame ≠ g.pin.frame := fun heq => hlined.onlyIdle.unpinned (heq ▸ hd')
    rw [hpasses.frameInfo? hlined.onlyIdle hd', frameInfo?_after_drop hsound hg hj, if_neg hne]

/-- A system with two frames and three processes. The first process keeps a page pinned, and the
second another. Three calls wait: for the other page of the second process, for the page that it keeps
pinned, and for a page of the third. -/
def crowded : System := (ofMachine (fresh 2)).run
  [.spawn (Image.ofMemory .empty).toExecutable [] .demand, .step 0,
    .spawn (Image.ofMemory .empty).toExecutable [] .demand, .step 0,
    .spawn (Image.ofMemory .empty).toExecutable [] .demand, .step 0,
    .request 0 (.pin ⟨0⟩ .read), .step 0, .step 0, .request 0 (.pin ⟨1⟩ .read), .step 0, .step 0,
    .request 1 (.pin ⟨0⟩ .read), .step 0, .request 1 (.fault ⟨1⟩), .step 1,
    .request 1 (.fault ⟨0⟩), .step 2, .request 2 (.fault ⟨0⟩), .step 3, .drop 0, .step 0, .step 0]

/-- The calls that wait in it. -/
def crowd : List Waiter :=
  [⟨crowded.processes.get ⟨1, by decide +kernel⟩, .fault ⟨1⟩, ⟨1⟩, 1⟩,
    ⟨crowded.processes.get ⟨1, by decide +kernel⟩, .fault ⟨0⟩, ⟨0⟩, 2⟩,
    ⟨crowded.processes.get ⟨2, by decide +kernel⟩, .fault ⟨0⟩, ⟨0⟩, 3⟩]

theorem crowded_crowd : crowded.Crowded crowd where
  pinned := (Directory.idle_eq_zero (by decide +kernel)).mp (by decide +kernel)
  calls := .of_eq rfl
  queue := by decide +kernel
  permitted := List.forall_mem_cons.mpr
    ⟨⟨.fault (by decide +kernel), rfl, false, rfl, fun _ => rfl⟩, List.forall_mem_cons.mpr
      ⟨⟨.fault (by decide +kernel), rfl, false, rfl, fun _ => rfl⟩, List.forall_mem_cons.mpr
        ⟨⟨.fault (by decide +kernel), rfl, false, rfl, fun _ => rfl⟩, nofun⟩⟩⟩
  pins w _ f i _ hi := by
    have hall : ∀ i ∈ crowded.machine.kernel.frames.directory.entries.toList,
        i.pins < FrameInfo.maxPins := by decide +kernel
    exact hall i (Array.mem_toList_iff.mpr (Array.mem_of_getElem? hi))

/-- The drop of the other page wakes the first call, which wakes the second. That one has its page in
the frame that is still pinned, so the third sleeps on although the frame is without a pin. -/
theorem relayed_of_drop_crowded : ∃ answers m',
    Waiter.Relayed crowd 2 (crowded.after (.drop 0)).machine m' answers ∧
      m'.waiters.queue.waiting = [3] ∧ (m'.frameInfo? ⟨1⟩).map FrameInfo.pins = some 0 := by
  have hspawn : ∀ {s : System}, s.processes.length + 1 < wordBound →
      s.Trusts (.spawn (Image.ofMemory .empty).toExecutable [] .demand) := trusts_image _ _ _
  have hreachable : Reachable Trusts (ofMachine (fresh 2)) crowded := Reachable.start.run
    ⟨hspawn (by decide), trusts_of_ne nofun, hspawn (by decide), trusts_of_ne nofun,
      hspawn (by decide), trusts_of_ne nofun, trusts_of_ne nofun, trusts_of_ne nofun,
      trusts_of_ne nofun, trusts_of_ne nofun, trusts_of_ne nofun, trusts_of_ne nofun,
      trusts_of_ne nofun, trusts_of_ne nofun, trusts_of_ne nofun, trusts_of_ne nofun,
      trusts_of_ne nofun, trusts_of_ne nofun, trusts_of_ne nofun, trusts_of_ne nofun,
      trusts_of_ne nofun, trusts_of_ne nofun, trusts_of_ne nofun, trivial⟩
  have hreturn : ∀ pr ∈ (Call.runAll (crowd.map Waiter.parked) (crowded.after (.drop 0)).machine).1,
      ¬ pr.FailsInTransfer := by decide +kernel
  have hreach : Waiter.reach crowd crowded.machine ⟨1⟩ = 2 := by decide +kernel
  obtain ⟨answers, m', hrelayed, -, hidle, -⟩ :=
    @relayed_of_drop crowded crowd 0 _ _ ⟨2, 1, true⟩ (.empty none) (fresh 2) rfl hreachable
      crowded_crowd rfl rfl rfl rfl hreturn
  change Waiter.Relayed crowd (Waiter.reach crowd crowded.machine ⟨1⟩) _ m' answers at hrelayed
  rw [hreach] at hrelayed
  exact ⟨answers, m', hrelayed, hrelayed.queue, hidle⟩

end System

end DemandPaging
