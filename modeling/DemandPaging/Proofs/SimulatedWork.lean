import DemandPaging.Simulator
import DemandPaging.Proofs.UndisturbedCopies

/-!
# Simulated work

A worker verifies a page only in the round in which it was last filled (`faithful_accesses`). What it
has filled stays as it is while the others have their turns, however often its pages are evicted
meanwhile. So it never counts a mismatch and never ends early (`Worker.OnTrack.exists_turn`), and that is
so for all workers in every order of turns (`Team.takeTurns`). When its work is done, all its pages hold
the pattern of the last round (`Team.holds`).
-/

namespace DemandPaging.Simulator

open Machine

/-! ## Accesses -/

def PageAccess.round : PageAccess → Nat
  | .fill _ round | .verify _ round => round

/-- Pages are verified only in the round in which they were last filled; before the first of the
accesses that was as `filled` says. -/
def Faithful : (filled : PageNumber → Option Nat) → List PageAccess → Prop
  | _, [] => True
  | filled, .fill page round :: as =>
    Faithful (Function.update filled (.ofNat page) (some round)) as
  | filled, .verify page round :: as => filled (.ofNat page) = some round ∧ Faithful filled as

/-- The round in which each page was last filled, after the accesses. -/
def lastFilled : (filled : PageNumber → Option Nat) → List PageAccess → PageNumber → Option Nat
  | filled, [] => filled
  | filled, .fill page round :: as =>
    lastFilled (Function.update filled (.ofNat page) (some round)) as
  | filled, .verify .. :: as => lastFilled filled as

variable {filled : PageNumber → Option Nat} {as bs : List PageAccess} {pages : List Nat} {round : Nat}

theorem lastFilled_append (filled : PageNumber → Option Nat) (as bs : List PageAccess) :
    lastFilled filled (as ++ bs) = lastFilled (lastFilled filled as) bs := by
  induction as generalizing filled with
  | nil => rfl
  | cons a as ih => cases a <;> exact ih _

theorem faithful_append (ha : Faithful filled as) (hb : Faithful (lastFilled filled as) bs) :
    Faithful filled (as ++ bs) := by
  induction as generalizing filled with
  | nil => exact hb
  | cons a as ih =>
    cases a with
    | fill page round => exact ih ha hb
    | verify page round => exact ⟨ha.1, ih ha.2 hb⟩

theorem faithful_fills (filled : PageNumber → Option Nat) (pages : List Nat) (round : Nat) :
    Faithful filled (pages.map (.fill · round)) := by
  induction pages generalizing filled with
  | nil => trivial
  | cons page pages ih => exact ih _

theorem lastFilled_fills {n : Nat} (hn : n ∈ pages ∨ filled (.ofNat n) = some round) :
    lastFilled filled (pages.map (.fill · round)) (.ofNat n) = some round := by
  induction pages generalizing filled with
  | nil => exact hn.resolve_left List.not_mem_nil
  | cons page pages ih =>
    refine ih ?_
    -- a page that is filled again is filled in the same round
    by_cases hsame : PageNumber.ofNat n = .ofNat page
    · right
      rw [hsame, Function.update_self]
    · rw [Function.update_of_ne hsame]
      exact hn.imp_left fun hmem =>
        (List.mem_cons.mp hmem).resolve_left fun heq => hsame (congrArg PageNumber.ofNat heq)

theorem faithful_verifies (hall : ∀ n ∈ pages, filled (.ofNat n) = some round) :
    Faithful filled (pages.map (.verify · round)) := by
  induction pages with
  | nil => trivial
  | cons page pages ih =>
    exact ⟨hall page List.mem_cons_self, ih fun n hn => hall n (List.mem_cons_of_mem _ hn)⟩

theorem lastFilled_verifies (filled : PageNumber → Option Nat) (pages : List Nat) (round : Nat) :
    lastFilled filled (pages.map (.verify · round)) = filled := by
  induction pages with
  | nil => rfl
  | cons page pages ih => exact ih

/-- **A worker verifies what it has filled** in the same round. -/
theorem faithful_accesses (filled : PageNumber → Option Nat) (pages rounds : Nat) :
    Faithful filled (accesses pages rounds) := by
  unfold accesses
  split
  · trivial
  · induction List.range rounds generalizing filled with
    | nil => trivial
    | cons round rounds ih =>
      rw [List.flatMap_cons]
      exact faithful_append (faithful_append (faithful_fills ..)
        (faithful_verifies fun n hn => lastFilled_fills (Or.inl hn))) (ih _)

/-- All pages are filled in the last round. -/
theorem lastFilled_accesses (filled : PageNumber → Option Nat) {pages n : Nat} (hn : n < pages)
    (round : Nat) : lastFilled filled (accesses pages (round + 1)) (.ofNat n) = some round := by
  rw [accesses, if_neg (Nat.ne_zero_of_lt hn), List.range_succ, List.flatMap_append, lastFilled_append,
    List.flatMap_singleton, lastFilled_append, lastFilled_verifies]
  exact lastFilled_fills (Or.inl (List.mem_range.mpr hn))

/-- The accesses are to the pages and rounds that were asked for. -/
theorem of_mem_accesses {pages rounds : Nat} {a : PageAccess} (h : a ∈ accesses pages rounds) :
    a.round < rounds ∧ ∃ n < pages, a.page = .ofNat n := by
  unfold accesses at h
  split at h
  · cases h
  · simp only [List.mem_flatMap, List.mem_range, List.mem_append, List.mem_map] at h
    obtain ⟨round, hround, ⟨n, hn, rfl⟩ | ⟨n, hn, rfl⟩⟩ := h <;> exact ⟨hround, n, hn, rfl⟩

/-! ## One worker -/

/-- The process can make the access: it has the page, and the pattern of the round is a byte. -/
structure PageAccess.Fits (a : PageAccess) (p : UserProcess) : Prop where
  contains : p.contains a.page = true
  pattern : ∃ b, pattern? p.pid a.page a.round = some b

namespace Worker

variable {w : Worker} {m : Machine} {l : Ledger} {page : PageNumber} {start : VirtualAddress} {b : UInt8}

/-- The page of a worker holds the pattern of a round. -/
def Holds (w : Worker) (m : Machine) (page : PageNumber) (round : Nat) : Prop :=
  ∃ b content, pattern? w.process.pid page round = some b ∧
    m.content? w.process page = some content ∧ content.bytes = List.replicate pageSize b

/-- The worker has found all pages as it had filled them. They hold the patterns of the rounds in which
they were last filled, and these are the rounds in which they will be verified. -/
structure OnTrack (w : Worker) (m : Machine) (l : Ledger) (filled : PageNumber → Option Nat) :
    Prop where
  readable : m.Readable l w.process
  few : w.process.numPages ≤ maxProcessPages
  unprotected : ∀ source, w.process.image.protects source = false
  ended : w.ended = none
  mismatches : w.mismatches = 0
  fits : ∀ a ∈ w.todo, a.Fits w.process
  faithful : Faithful filled w.todo
  holds : ∀ page round, filled page = some round → w.Holds m page round

/-- What the turn of a worker does to itself and to the machine. -/
structure Turned (w w' : Worker) (m m' : Machine) (l : Ledger) (filled : PageNumber → Option Nat) :
    Prop where
  process : w'.process = w.process
  todo : w'.todo = w.todo.tail
  onTrack : ∃ filled', w'.OnTrack m' l filled' ∧
    lastFilled filled' w'.todo = lastFilled filled w.todo
  stays : m.StaysReady m' l
  content : ∀ (q : UserProcess) (page : PageNumber), m.Registered q → q.pid ≠ w.process.pid →
    m'.content? q page = m.content? q page

section Turn

variable (h : w.OnTrack m l filled)
include h

theorem OnTrack.writable (hpage : w.process.contains page = true) :
    m.readOnly? w.process page = some false := by
  obtain ⟨source, hsource⟩ := w.process.layout.exists_source hpage
  rw [h.readable.marked, hsource, Option.map_some, h.unprotected]

theorem OnTrack.exists_base? (hpage : w.process.contains page = true) :
    ∃ start, page.base? = some start :=
  PageNumber.exists_base? (Nat.lt_of_lt_of_le (of_decide_eq_true hpage) h.few)

/-- A page that is filled holds the pattern, and the other pages hold what they held. -/
theorem OnTrack.perform_fill {n : Nat} (htodo : w.todo = .fill n round :: as) :
    ∃ w' m', { w with todo := as }.perform (.fill n round) m = (w', m') ∧ Turned w w' m m' l filled := by
  have hfits := h.fits (.fill n round) (htodo ▸ List.mem_cons_self)
  have hfaithful := h.faithful
  rw [htodo] at hfaithful
  obtain ⟨b, hb⟩ := hfits.pattern
  obtain ⟨start, hstart⟩ := h.exists_base? hfits.contains
  obtain ⟨new, hnew⟩ := @Page.exists_eq_bytes (List.replicate pageSize b) List.length_replicate
  obtain ⟨c, m', hrun, hstays, hcontent, hothers⟩ := Call.exists_run_write_page h.readable hstart
    hfits.contains (h.writable hfits.contains) new
  refine ⟨{ w with todo := as }, m', ?_, rfl, by rw [htodo]; rfl,
    ⟨Function.update filled (.ofNat n) (some round), ⟨h.readable.next hstays, h.few, h.unprotected,
      h.ended, h.mismatches, fun a ha => h.fits a (htodo ▸ List.mem_cons_of_mem _ ha), hfaithful,
      fun page' round' hlast => ?_⟩, by rw [htodo]; rfl⟩,
    hstays, fun q page' hq hne => hothers q page' hq fun heq => hne (congrArg Prod.fst heq)⟩
  · simp only [PageAccess.page, PageAccess.round] at hstart hb
    simp only [perform, PageAccess.page, hstart, fill, hb, hnew, hrun, afterCall]
  · by_cases hsame : page' = .ofNat n
    · subst hsame
      rw [Function.update_self, Option.some.injEq] at hlast
      subst hlast
      exact ⟨b, new, hb, hcontent, hnew.symm⟩
    · rw [Function.update_of_ne hsame] at hlast
      obtain ⟨b', content, hb', hold, hbytes⟩ := h.holds page' round' hlast
      refine ⟨b', content, hb', ?_, hbytes⟩
      rw [← hold]
      exact hothers w.process page' h.readable.registered fun heq => hsame (congrArg Prod.snd heq)

/-- A page that is verified holds the pattern, so there is no mismatch. -/
theorem OnTrack.perform_verify {n : Nat} (htodo : w.todo = .verify n round :: as) :
    ∃ w' m', { w with todo := as }.perform (.verify n round) m = (w', m') ∧ Turned w w' m m' l filled := by
  have hfits := h.fits (.verify n round) (htodo ▸ List.mem_cons_self)
  have hfaithful := h.faithful
  rw [htodo] at hfaithful
  obtain ⟨start, hstart⟩ := h.exists_base? hfits.contains
  obtain ⟨b, content, hb, hcontent, hbytes⟩ := h.holds (.ofNat n) round hfaithful.1
  obtain ⟨c, m', hrun, hstays, hfound, hsame⟩ :=
    Call.exists_run_read_page h.readable hstart hfits.contains hcontent
  have hall : c.bytes.all (· = b) = true := by
    rw [hfound, hbytes, List.all_eq_true]
    exact fun x hx => decide_eq_true (List.eq_of_mem_replicate hx)
  refine ⟨{ w with todo := as }, m', ?_, rfl, by rw [htodo]; rfl,
    ⟨filled, ⟨h.readable.next hstays, h.few, h.unprotected, h.ended, h.mismatches,
      fun a ha => h.fits a (htodo ▸ List.mem_cons_of_mem _ ha), hfaithful.2,
      fun page' round' hlast => ?_⟩, by rw [htodo]; rfl⟩,
    hstays, fun q page' hq _ => hsame q page' hq⟩
  · simp only [PageAccess.page] at hstart
    simp only [perform, PageAccess.page, hstart, verify, hrun, afterCall, compare, hb, hall, if_true]
  · obtain ⟨b', content', hb', hold, hbytes'⟩ := h.holds page' round' hlast
    exact ⟨b', content', hb', (hsame w.process page' h.readable.registered).trans hold, hbytes'⟩

/-- **A turn leaves a worker on track.** The pages of all other processes keep their content. -/
theorem OnTrack.exists_turn : ∃ w' m', w.turn m = (w', m') ∧ Turned w w' m m' l filled := by
  cases htodo : w.todo with
  | nil =>
    refine ⟨w, m, ?_, rfl, by rw [htodo]; rfl, ⟨filled, h, rfl⟩, h.readable.ready.stays,
      fun _ _ _ _ => rfl⟩
    simp only [turn, h.ended, htodo]
  | cons a as =>
    have hturn : w.turn m = { w with todo := as }.perform a m := by
      simp only [turn, h.ended, htodo]
    rw [hturn]
    cases a with
    | fill n round => exact h.perform_fill htodo
    | verify n round => exact h.perform_verify htodo

/-- A worker is on track still after the turn of another one. -/
theorem OnTrack.after_turn {v v' : Worker} {m' : Machine} {filled' : PageNumber → Option Nat}
    (hturned : Turned v v' m m' l filled')
    (hne : w.process.pid ≠ v.process.pid) : w.OnTrack m' l filled := by
  refine ⟨h.readable.next hturned.stays, h.few, h.unprotected, h.ended, h.mismatches, h.fits,
    h.faithful, fun page round hlast => ?_⟩
  obtain ⟨b, content, hb, hold, hbytes⟩ := h.holds page round hlast
  exact ⟨b, content, hb, (hturned.content w.process page h.readable.registered hne).trans hold, hbytes⟩

end Turn

end Worker

/-! ## All workers -/

variable {ws : List Worker} {m : Machine} {l : Ledger} {final : PageNumber → Option Nat}

/-- The workers share the machine. Each of them has a process of its own and is on track. At the end of
their work the rounds in which the pages were last filled will be as `final` says. -/
structure Team (ws : List Worker) (m : Machine) (l : Ledger) (final : PageNumber → Option Nat) : Prop where
  ready : m.Ready l
  onTrack : ∀ (i : Nat) (w : Worker), ws[i]? = some w →
    ∃ filled, w.OnTrack m l filled ∧ lastFilled filled w.todo = final
  distinct : ∀ (i j : Nat) (v w : Worker), ws[i]? = some v → ws[j]? = some w →
    v.process.pid = w.process.pid → i = j

/-- The turn of one worker leaves all of them on track. -/
theorem Team.turn {w w' : Worker} {m' : Machine} {i : Nat} (h : Team ws m l final)
    (hw : ws[i]? = some w) (hturned : Worker.Turned w w' m m' l filled)
    (hfinal : lastFilled filled w.todo = final) : Team (ws.set i w') m' l final := by
  have hprocess : ∀ (j : Nat) (v : Worker), (ws.set i w')[j]? = some v →
      ∃ u, ws[j]? = some u ∧ u.process = v.process := by
    intro j v hv
    rw [List.getElem?_set] at hv
    split at hv
    · next hij =>
      split at hv
      · cases hv
        exact ⟨w, hij ▸ hw, hturned.process.symm⟩
      · cases hv
    · exact ⟨v, hv, rfl⟩
  refine ⟨hturned.stays.ready, fun j v hv => ?_, fun j k u v hu hv hpid => ?_⟩
  · rw [List.getElem?_set] at hv
    split at hv
    · split at hv
      · cases hv
        obtain ⟨filled', honTrack, hlast⟩ := hturned.onTrack
        exact ⟨filled', honTrack, hlast.trans hfinal⟩
      · cases hv
    · next hij =>
      obtain ⟨filled', honTrack, hlast⟩ := h.onTrack j v hv
      exact ⟨filled',
        honTrack.after_turn hturned fun heq => hij (h.distinct i j w v hw hv heq.symm), hlast⟩
  · obtain ⟨u', hu', hu⟩ := hprocess j u hu
    obtain ⟨v', hv', hv⟩ := hprocess k v hv
    exact h.distinct j k u' v' hu' hv' (hu ▸ hv ▸ hpid)

/-- **Whoever has the next turn**, all workers stay on track, and each of them gets on by as many accesses
as it has turns. -/
theorem Team.takeTurns (h : Team ws m l final) (turns : List Nat) :
    ∃ ws' m', takeTurns turns ws m = (ws', m') ∧ Team ws' m' l final ∧ m.StaysReady m' l ∧
      ws'.length = ws.length ∧ ∀ i : Nat, ws'[i]?.map (fun w => (w.process, w.todo)) =
        ws[i]?.map fun w => (w.process, w.todo.drop (turns.count i)) := by
  induction turns generalizing ws m with
  | nil => exact ⟨ws, m, rfl, h, h.ready.stays, rfl, fun i => rfl⟩
  | cons i is ih =>
    cases hw : ws[i]? with
    | none =>
      obtain ⟨ws', m', hrun, hteam, hstays, hlength, htodo⟩ := ih h
      refine ⟨ws', m', ?_, hteam, hstays, hlength, fun j => ?_⟩
      · rw [Simulator.takeTurns, hw]
        exact hrun
      · by_cases hij : i = j
        · rw [htodo, ← hij, hw]
          rfl
        · rw [htodo, List.count_cons_of_ne hij]
    | some w =>
      obtain ⟨filled, honTrack, hfinal⟩ := h.onTrack i w hw
      obtain ⟨w', m₁, hturn, hturned⟩ := honTrack.exists_turn
      obtain ⟨ws', m', hrun, hteam, hstays, hlength, htodo⟩ :=
        ih (h.turn hw hturned hfinal)
      refine ⟨ws', m', ?_, hteam, hturned.stays.trans hstays, hlength.trans List.length_set, fun j => ?_⟩
      · rw [Simulator.takeTurns, hw]
        simp only [hturn]
        exact hrun
      · rw [htodo, List.getElem?_set]
        by_cases hij : i = j
        · subst hij
          have hlt := (List.getElem?_eq_some_iff.mp hw).1
          rw [if_pos rfl, if_pos hlt, hw, Option.map_some, Option.map_some, hturned.process,
            hturned.todo, List.count_cons_self, List.drop_tail]
        · rw [if_neg hij, List.count_cons_of_ne hij]

/-- **A worker whose work is done** finds the pattern of the last round on all its pages. -/
theorem Team.holds {pages i n : Nat} {w : Worker}
    (h : Team ws m l (lastFilled (fun _ => none) (accesses pages (round + 1)))) (hw : ws[i]? = some w)
    (hdone : w.todo = []) (hn : n < pages) : w.Holds m (.ofNat n) round := by
  obtain ⟨filled, honTrack, hfinal⟩ := h.onTrack i w hw
  rw [hdone, lastFilled] at hfinal
  exact honTrack.holds (.ofNat n) round (hfinal ▸ lastFilled_accesses _ hn round)

/-- Nobody counted a mismatch, and nobody ended early. -/
theorem Team.totalMismatches (h : Team ws m l final) : totalMismatches ws = .ok 0 := by
  have hall : ∀ w ∈ ws, w.ended = none ∧ w.mismatches = 0 := fun w hw => by
    obtain ⟨i, hi⟩ := List.mem_iff_getElem?.mp hw
    obtain ⟨filled, honTrack, -⟩ := h.onTrack i w hi
    exact ⟨honTrack.ended, honTrack.mismatches⟩
  clear h
  induction ws with
  | nil => rfl
  | cons w ws ih =>
    obtain ⟨hended, hmismatches⟩ := hall w List.mem_cons_self
    rw [Simulator.totalMismatches, hended]
    dsimp only
    rw [ih fun v hv => hall v (List.mem_cons_of_mem _ hv), hmismatches]
    rfl

end DemandPaging.Simulator
