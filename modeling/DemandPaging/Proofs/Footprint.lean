import DemandPaging.Proofs.Calls

/-!
# The footprint of a step

A step of a call leaves the machine sound, with the frame of the call among the pins. Beyond that it
touches little: it may tear down the process that the call was to create, it may write to one page,
and whatever is neither is as it was (`Machine.Spares`).
-/

namespace DemandPaging

namespace Machine

/-- What is as before although the process `gone` may have been torn down and the page `target`
written to: processes, contents of pages, and the pages and bytes of the frames in `pinned`. -/
structure Spares (m m' : Machine) (pinned : List FrameNumber) (gone : Option ProcessId)
    (target : Option (ProcessId × PageNumber)) : Prop where
  registered : ∀ q, m.Registered q → gone ≠ some q.pid → m'.Registered q
  left : ∀ q, gone = some q.pid → ¬ m'.Registered q
  content : ∀ q page, m.Registered q → gone ≠ some q.pid → target ≠ some (q.pid, page) →
    m'.content? q page = m.content? q page
  owner : ∀ f ∈ pinned, ∀ i, m.frameInfo? f = some i →
    ∃ j, m'.frameInfo? f = some j ∧ j.owner = i.owner ∧ j.page = i.page
  bytes : ∀ f ∈ pinned, ∀ i pid, m.frameInfo? f = some i → i.owner = some pid →
    target ≠ some (pid, i.page) →
    m'.kernel.memory.frames[f.toNat]? = m.kernel.memory.frames[f.toNat]?

namespace Spares

variable {m m' : Machine} {pinned : List FrameNumber}

/-- A change that keeps everything spares everything. -/
theorem of_keeps (h : Keeps m m' pinned) : Spares m m' pinned none none where
  registered q hq _ := (h.registered q).mpr hq
  left _ hgone := nomatch hgone
  content q page hq _ _ := h.content q page hq
  owner := h.owner
  bytes f hf _ _ _ _ _ := h.bytes f hf

/-- The process that went is gone, and the others are as before. -/
theorem of_without {pid : ProcessId} (h : Keeps (m.without pid) m' pinned) :
    Spares m m' pinned (some pid) none where
  registered q hq hne := by
    rw [h.registered, Registered, process?_without, if_neg fun heq => hne (congrArg some heq.symm)]
    exact hq
  left q hgone hq := by
    rw [h.registered, Registered, process?_without, if_pos (Option.some.inj hgone).symm] at hq
    contradiction
  content q page hq hne _ := by
    refine h.content q page ?_
    rw [Registered, process?_without, if_neg fun heq => hne (congrArg some heq.symm)]
    exact hq
  owner := h.owner
  bytes f hf _ _ _ _ _ := h.bytes f hf

/-- What is spared without a write is spared with one. -/
theorem with_target {gone : Option ProcessId} (h : Spares m m' pinned gone none)
    (target : Option (ProcessId × PageNumber)) : Spares m m' pinned gone target where
  registered := h.registered
  left := h.left
  content q page hq hne _ := h.content q page hq hne nofun
  owner := h.owner
  bytes f hf i pid hi ho _ := h.bytes f hf i pid hi ho nofun

/-- A copy spares all but the page it writes to. -/
theorem of_copied {l : Ledger} {p : UserProcess} {c : Copy} {piece : CopyPiece} {f : FrameNumber}
    {i : FrameInfo ProcessId} (h : m.Copied m' l p c piece f) (hi : m.frameInfo? f = some i)
    (howner : i.owner = some p.pid) (hpage : i.page = piece.page)
    {target : Option (ProcessId × PageNumber)}
    (htarget : c.kind = .write → target = some (p.pid, piece.page)) (pinned : List FrameNumber) :
    Spares m m' pinned none target where
  registered q hq _ := by
    rw [Registered, h.registry]
    exact hq
  left _ hgone := nomatch hgone
  content q page hq _ hne :=
    h.content q page hq fun hw heq => hne (by rw [htarget hw, heq])
  owner g _ j hj := by
    refine ⟨j, ?_, rfl, rfl⟩
    rw [frameInfo?, h.frames]
    exact hj
  bytes g _ j pid hj ho hne := by
    refine h.bytes g fun hw hg => hne ?_
    rw [hg, hi, Option.some.injEq] at hj
    rw [← hj, howner, Option.some.injEq] at ho
    rw [htarget hw, ← hj, hpage, ho]

/-- A process that comes does not touch those that are there. -/
theorem joined {l : Ledger} (h : m.Sound l) (hroom : l.processes.length + 1 < wordBound)
    {p : UserProcess} (hpid : p.pid = m.kernel.nextPid) (t : PageTable)
    (pinned : List FrameNumber) : Spares m (m.joined p t) pinned none none where
  registered q hq _ := by
    rw [Registered, process?_joined, if_neg]
    · exact hq
    · exact fun heq => h.census.pid_ne_nextPid hroom (h.census.mem hq) (heq.trans hpid)
  left _ hgone := nomatch hgone
  content q page hq _ _ := content?_joined h hq page
  owner _ _ i hi := ⟨i, hi, rfl, rfl⟩
  bytes _ _ _ _ _ _ _ := rfl

end Spares

end Machine

open Machine

namespace Call

/-- The process that the next step tears down. -/
def torn? (c : Call) : Option ProcessId :=
  match c.stage with
  | .undoing _ => some c.process.pid
  | _ => none

/-- The page that the next step writes to, and whose it is. -/
def target? (c : Call) : Option (ProcessId × PageNumber) :=
  c.writing?.map fun w => (c.process.pid, w.1)

/-- The process whose teardown stopped in a step that ended like this. -/
def broken (c : Call) : Progress → List ProcessId
  | .finished (.violated _) => c.torn?.toList
  | _ => []

variable {m : Machine} {l : Ledger} {c : Call} {x : Progress × Machine}

theorem torn?_of_seeking (h : c.stage = .seeking) : c.torn? = none := by rw [torn?, h]

/-- A call that has a frame tears nothing down. -/
theorem torn?_of_frame {f : FrameNumber} (h : c.frame? = some f) : c.torn? = none := by
  unfold torn?
  split
  · next stage =>
    rw [frame?, stage] at h
    contradiction
  · rfl

theorem frame?_of_seeking (h : c.stage = .seeking) : c.frame? = none := by rw [frame?, h]

/-- A call that ended without a pin has no frame. -/
theorem frame?_finished {o : Outcome} (h : ∀ g, o ≠ .returned (.pinned g)) :
    (Progress.finished o).frame? = none := by
  unfold Progress.frame?
  split
  · contradiction
  · next heq =>
    cases heq
    exact absurd rfl (h _)
  · rfl

theorem frame?_of_quiet {pr : Progress} (h : c.Quiet pr) : pr.frame? = none := by
  cases pr with
  | ongoing c' => exact h.2.1
  | finished o => exact frame?_finished h.unpinned

theorem Ready.alike {m' : Machine} (h : c.Ready m m') : Alike m m' := by
  cases h with
  | seeking stage => exact .refl m
  | woken stage parked => exact (Alike.withWaiters m _).trans (.noted _ _)

theorem Ready.frame? {m' : Machine} (h : c.Ready m m') : c.frame? = none := by
  cases h with
  | seeking stage => rw [Call.frame?, stage]
  | woken stage parked => rw [Call.frame?, stage]

theorem Ready.torn? {m' : Machine} (h : c.Ready m m') : c.torn? = none := by
  cases h with
  | seeking stage => rw [Call.torn?, stage]
  | woken stage parked => rw [Call.torn?, stage]

/-- A call that tears nothing down breaks nothing. -/
theorem broken_eq_nil (h : c.torn? = none) (pr : Progress) : c.broken pr = [] := by
  unfold broken
  split
  · rw [h]
    rfl
  · rfl

/-! ## Soundness -/

/-- **A step is sound.** The frame of the call stays among the pins, or leaves them. A pin becomes
loose only if an assertion is violated for an executable that gives no answer. -/
theorem Stepped.sound (hs : Stepped m l c x) (h : m.Sound l) {others : List FrameNumber}
    (hpins : l.pinned.Perm (c.frame?.toList ++ others)) (hv : c.Valid) :
    ∃ loose, ((∀ v, x.1 = .finished (.violated v) → c.process.image.Answers) → loose = l.loose) ∧
      x.2.Sound ⟨l.processes, x.1.frame?.toList ++ others, loose, c.broken x.1 ++ l.broken⟩ := by
  cases hs with
  | @asleep t stage parked =>
    refine ⟨l.loose, fun _ => rfl, ?_⟩
    rw [broken_eq_nil (by rw [torn?, stage])]
    exact h.perm hpins
  | quiet stage quiet alike waiters =>
    refine ⟨l.loose, fun _ => rfl, ?_⟩
    rw [broken_eq_nil (torn?_of_seeking stage), frame?_of_quiet quiet]
    rw [frame?_of_seeking stage] at hpins
    exact (h.alike alike).perm hpins
  | @attempt m₁ page kind r ready wanted resolution =>
    rw [broken_eq_nil ready.torn?]
    rw [ready.frame?] at hpins
    cases resolution with
    | pinned registered sound keeps info idle_le le_idle waiters =>
      exact ⟨l.loose, fun _ => rfl, sound.perm (hpins.cons _)⟩
    | queued idle alike waiters =>
      exact ⟨l.loose, fun _ => rfl, ((h.alike ready.alike).alike alike).perm hpins⟩
    | @failed err m' sound keeps idle waiters =>
      refine ⟨l.loose, fun _ => rfl, ?_⟩
      rw [afterSeek, frame?_of_quiet (quiet_afterFailure hv (.error err))]
      exact sound.perm hpins
    | @stuck v m' loose image sound keeps idle waiters =>
      refine ⟨loose, fun hanswers => image (hanswers v rfl), ?_⟩
      rw [afterSeek, frame?_of_quiet (quiet_afterFailure hv (.violation v))]
      exact sound.perm hpins
  | @unpinned f i ts frame info pins writing valid continues =>
    rw [frame] at hpins
    exact ⟨l.loose, fun _ => rfl, (h.perm hpins).dropPin rfl info⟩
  | @kept f page kind stage wanted writing =>
    rw [frame?, stage] at hpins
    exact ⟨l.loose, fun _ => rfl, h.perm hpins⟩
  | @copied f copy copy' piece rest m' stage tasks turn copied valid =>
    rw [frame?, stage] at hpins
    exact ⟨l.loose, fun _ => rfl, copied.sound.perm hpins⟩
  | @undone e r stage departure =>
    rw [frame?, stage] at hpins
    cases departure with
    | gone sound keeps idle waiters => exact ⟨l.loose, fun _ => rfl, sound.perm hpins⟩
    | stopped sound keeps idle waiters =>
      refine ⟨l.loose, fun _ => rfl, ?_⟩
      have hbroken : c.torn?.toList = [c.process.pid] := by rw [torn?, stage]; rfl
      rw [afterUndo, Outcome.ofStop, broken, hbroken]
      exact sound.perm hpins

/-! ## What is spared -/

/-- Before an attempt the call tears nothing down and writes nothing. -/
theorem Stepped.spares (hs : Stepped m l c x) (hr : c.Recorded m) :
    Spares m x.2 l.pinned c.torn? c.target? := by
  cases hs with
  | @asleep t stage parked =>
    have htorn : c.torn? = none := by rw [torn?, stage]
    rw [htorn]
    exact (Spares.of_keeps (.refl m _)).with_target _
  | quiet stage quiet alike waiters =>
    rw [torn?_of_seeking stage]
    exact (Spares.of_keeps (.alike alike _)).with_target _
  | @attempt m₁ page kind r ready wanted resolution =>
    rw [ready.torn?]
    have hready : Keeps m m₁ l.pinned := .alike ready.alike _
    have hkeeps : Keeps m (c.afterSeek r).2 l.pinned := by
      cases resolution with
      | pinned registered sound keeps info idle_le le_idle waiters => exact hready.trans keeps
      | queued idle alike waiters => exact hready.trans (.alike alike _)
      | failed sound keeps idle waiters => exact hready.trans keeps
      | stuck image sound keeps idle waiters => exact hready.trans keeps
    exact (Spares.of_keeps hkeeps).with_target _
  | @unpinned f i ts frame info pins writing valid continues =>
    rw [torn?_of_frame frame]
    exact (Spares.of_keeps (.dropPin info _)).with_target _
  | @kept f page kind stage wanted writing =>
    have htorn : c.torn? = none := by rw [torn?, stage]
    rw [htorn]
    exact (Spares.of_keeps (.refl m _)).with_target _
  | @copied f copy copy' piece rest m' stage tasks turn copied valid =>
    have htorn : c.torn? = none := by rw [torn?, stage]
    have hwanted : c.wanted? = some (piece.page, copy.kind) := by
      simp only [wanted?, tasks, turn]
    obtain ⟨i, hi, howner, hpage⟩ := hr f (by rw [frame?, stage])
    rw [htorn]
    refine Spares.of_copied copied hi howner (hpage _ _ stage hwanted) (fun hw => ?_) _
    simp only [target?, writing?, stage, tasks, hw, turn, Option.map_some]
  | @undone e r stage departure =>
    have htorn : c.torn? = some c.process.pid := by rw [torn?, stage]
    rw [htorn]
    have hnoted : Keeps (m.without c.process.pid)
        ((m.noted (.spawnFailed c.process.pid e)).without c.process.pid) l.pinned :=
      .alike (.noted (m.without c.process.pid) _) _
    cases departure with
    | gone sound keeps idle waiters =>
      exact (Spares.of_without (hnoted.trans keeps)).with_target _
    | stopped sound keeps idle waiters =>
      exact (Spares.of_without (hnoted.trans keeps)).with_target _

/-- A step that tears nothing down and writes nothing spares everybody. -/
theorem Stepped.spares_all (hs : Stepped m l c x) (hr : c.Recorded m) (htorn : c.torn? = none)
    (hwriting : c.writing? = none) {q : UserProcess} (hq : m.Registered q) :
    x.2.Registered q ∧ ∀ page, x.2.content? q page = m.content? q page := by
  have hspares := hs.spares hr
  have htarget : c.target? = none := by rw [target?, hwriting, Option.map_none]
  rw [htorn, htarget] at hspares
  exact ⟨hspares.registered q hq (Option.some_ne_none _).symm, fun page =>
    hspares.content q page hq (Option.some_ne_none _).symm (Option.some_ne_none _).symm⟩

/-- What a call has become is valid again, and its frame is recorded. -/
def Follows (c : Call) (m : Machine) : Progress → Prop
  | .ongoing c' => c'.process = c.process ∧ c'.Valid ∧ c'.Recorded m
  | .finished (.returned (.pinned g)) => ∃ i, m.frameInfo? g.frame = some i ∧
      i.owner = some c.process.pid ∧ i.page = g.page
  | .finished _ => True

theorem follows_of_quiet {pr : Progress} (h : c.Quiet pr) (m : Machine) : c.Follows m pr := by
  cases pr with
  | ongoing c' =>
    refine ⟨h.1.process, h.2.2.2, fun f hf => ?_⟩
    rw [h.2.1] at hf
    contradiction
  | finished o =>
    unfold Follows
    split
    · contradiction
    · next heq =>
      cases heq
      exact absurd rfl (h.unpinned _)
    · trivial

/-- **A call stays valid**, and the frame it holds is recorded for its page. -/
theorem Stepped.follows (hs : Stepped m l c x) (hv : c.Valid) (hr : c.Recorded m) :
    c.Follows x.2 x.1 := by
  cases hs with
  | asleep stage parked => exact ⟨rfl, hv, hr⟩
  | quiet stage quiet alike waiters => exact follows_of_quiet quiet _
  | @attempt m₁ page kind r ready wanted resolution =>
    cases resolution with
    | @pinned f m' registered sound keeps info idle_le le_idle waiters =>
      obtain ⟨i, hi, howner, hpage⟩ := info
      refine ⟨rfl, ⟨hv.hold, fun _ hstage => (by cases hstage), fun _ _ => ⟨page, kind, wanted⟩⟩,
        fun g hg => ?_⟩
      cases hg
      refine ⟨i, hi, howner, fun page' kind' _ hwanted => ?_⟩
      have heq := wanted.symm.trans hwanted
      rw [Option.some.injEq, Prod.mk.injEq] at heq
      exact hpage.trans heq.1
    | queued idle alike waiters =>
      exact ⟨rfl, ⟨hv.hold, fun _ _ => ⟨page, kind, wanted⟩, fun _ hstage => (by cases hstage)⟩,
        fun _ hframe => (by cases hframe)⟩
    | @failed err m' sound keeps idle waiters =>
      exact follows_of_quiet (quiet_afterFailure hv (.error err)) m'
    | @stuck v m' loose image sound keeps idle waiters =>
      exact follows_of_quiet (quiet_afterFailure hv (.violation v)) m'
  | unpinned frame info pins writing valid continues =>
    exact ⟨rfl, valid, fun _ hframe => (by cases hframe)⟩
  | @kept f page kind stage wanted writing =>
    obtain ⟨i, hi, howner, hpage⟩ := hr f (by rw [frame?, stage])
    exact ⟨i, hi, howner, hpage page kind stage wanted⟩
  | @copied f copy copy' piece rest m' stage tasks turn copied valid =>
    obtain ⟨i, hi, howner, -⟩ := hr f (by rw [frame?, stage])
    refine ⟨rfl, valid, fun g hg => ?_⟩
    cases hg
    refine ⟨i, ?_, howner, fun _ _ hstage => (by cases hstage)⟩
    rw [frameInfo?, copied.frames]
    exact hi
  | @undone e r stage departure =>
    cases departure with
    | gone sound keeps idle waiters => trivial
    | stopped sound keeps idle waiters => trivial

/-- The bytes of a write are in place after the step. -/
theorem Stepped.written (hs : Stepped m l c x) (hreg : m.Registered c.process) {page : PageNumber}
    {offset : Nat} {bytes : Bytes} (hw : c.writing? = some (page, offset, bytes)) :
    ∃ old new, m.content? c.process page = some old ∧ old.write? offset bytes = some new ∧
      x.2.content? c.process page = some new := by
  cases hs with
  | asleep stage parked =>
    rw [writing?, stage] at hw
    contradiction
  | quiet stage quiet alike waiters =>
    rw [writing?, stage] at hw
    contradiction
  | attempt ready wanted resolution =>
    cases ready with
    | seeking stage =>
      rw [writing?, stage] at hw
      contradiction
    | woken stage parked =>
      rw [writing?, stage] at hw
      contradiction
  | unpinned frame info pins writing valid continues =>
    rw [writing] at hw
    contradiction
  | kept stage wanted writing =>
    rw [writing] at hw
    contradiction
  | @copied f copy copy' piece rest m' stage tasks turn copied valid =>
    cases hkind : copy.kind with
    | read =>
      simp only [writing?, stage, tasks, hkind] at hw
      contradiction
    | write =>
      simp only [writing?, stage, tasks, hkind, turn, Option.some.injEq, Prod.mk.injEq] at hw
      obtain ⟨rfl, rfl, rfl⟩ := hw
      exact copied.written hkind hreg
  | undone stage departure =>
    rw [writing?, stage] at hw
    contradiction

end Call

end DemandPaging
