import DemandPaging.Proofs.Arguments
import DemandPaging.Proofs.Service
import DemandPaging.Proofs.Texts

/-!
# Arguments are read back

A text that lies on one page, such as an argument, is read in one piece. A call that looks for it
goes through few stages, and in each of them it has read nothing or everything (`Call.Retrieves`), so
it hands over what lies in the page whatever happens in between. If the page can be had
(`Machine.CanServe`), the call does end.

With what the creation of a process leaves in its argument page (`System.Arranged`), this makes the
round trip of the arguments (`System.arguments_round_trip`).
-/

namespace DemandPaging

open Machine

/-! ## Reads inside one page -/

/-- A read of `n` bytes that is done and has found the bytes `bs` on one page. -/
def Copy.found (a : VirtualAddress) (n : Nat) (bs : Bytes) : Copy := ⟨.read, a, n, n, [bs], []⟩

theorem Copy.bytes_found (a : VirtualAddress) (n : Nat) (bs : Bytes) : (found a n bs).bytes = bs :=
  List.append_nil bs

/-- Nothing is left to do for a read that is done. -/
theorem Copy.turn_found (a : VirtualAddress) (n : Nat) (bs : Bytes) (l : Layout) :
    (found a n bs).turn l = .complete := if_pos (Nat.le_refl n)

/-- The first `n` bytes from `a` on lie on one page of the process. -/
structure UserProcess.Spans (p : UserProcess) (a : VirtualAddress) (n : Nat) : Prop where
  pos : 0 < n
  fits : a.offset.toNat + n ≤ pageSize
  contains : p.contains a.page = true

/-- The bytes of the page at the address. -/
def Page.bytesAt (content : Page) (a : VirtualAddress) (n : Nat) : Bytes :=
  content.bytes.slice a.offset.toNat n

/-- A read inside one page is one piece. -/
theorem UserProcess.Spans.turn {p : UserProcess} {a : VirtualAddress} {n : Nat} (h : p.Spans a n) :
    (Copy.ofRead a n).turn p.layout = .piece ⟨a.page, a.offset, n⟩ := by
  have hpos : ¬ n ≤ 0 := Nat.not_le.mpr h.pos
  have hamount : min (n - 0) a.offset.remaining = n := by
    have hfits := h.fits
    rw [PageOffset.remaining]
    omega
  have hcontains : p.layout.contains a.page = true := h.contains
  have hzero : (Copy.ofRead a n).done = 0 := rfl
  have hlength : (Copy.ofRead a n).length = n := rfl
  have hstart : (Copy.ofRead a n).start = a := rfl
  rw [Copy.turn, hlength, hzero, if_neg hpos, hstart, VirtualAddress.add?_zero]
  simp only [hcontains, if_true, Copy.pieceAt, hlength, hzero, hamount]

/-! ## Calls that read a text -/

namespace Call

/-- The call looks at `n` bytes from `a` on, for a text of `p`. It has read nothing so far, or it
has read all of the bytes, and `text?` is what they say. -/
structure Retrieves (c : Call) (p : UserProcess) (a : VirtualAddress) (n : Nat)
    (text? : Option String) : Prop where
  process : c.process = p
  purpose : c.purpose = .text
  tasks : c.tasks = [.copy (.ofRead a n)] ∨
    ∃ bs, c.tasks = [.copy (.found a n bs)] ∧ terminatedText? bs = text?

end Call

/-- The call goes on looking for the text, or it hands it over, or it has failed. -/
def Progress.Retrieves (p : UserProcess) (a : VirtualAddress) (n : Nat) (text? : Option String) :
    Progress → Prop
  | .ongoing c => c.Retrieves p a n text?
  | .finished (.returned answer) => answer = .text text?
  | .finished _ => True

namespace Call

variable {m m' : Machine} {l : Ledger} {c : Call} {p : UserProcess} {a : VirtualAddress} {n : Nat}
  {bs : Bytes} {content : Page} {text? : Option String} {pr : Progress} {f : FrameNumber}

theorem Retrieves.with_stage (h : c.Retrieves p a n text?) (stage : Stage) :
    ({ c with stage } : Call).Retrieves p a n text? := ⟨h.process, h.purpose, h.tasks⟩

/-- A call that has read everything hands over the text. -/
theorem begin_of_found (hpurpose : c.purpose = .text) (htasks : c.tasks = [.copy (.found a n bs)]) :
    c.begin = pure (.finished (.returned (.text (terminatedText? bs)))) := by
  have hdone : ¬ (Purpose.text = .spawn ∧ (Copy.found a n bs).done < (Copy.found a n bs).length) :=
    fun h => nomatch h.1
  simp only [begin, htasks, Copy.turn_found, endCopy, endTask, conclude, hpurpose, hdone, if_false,
    Copy.bytes_found]

/-- The page that the call wants. -/
theorem wanted?_of_ofRead (hspans : c.process.Spans a n)
    (htasks : c.tasks = [.copy (.ofRead a n)]) : c.wanted? = some (a.page, .read) := by
  simp only [wanted?, htasks, hspans.turn]
  rfl

/-- A call that holds the page reads all of its bytes at once. -/
theorem run_use_of_ofRead (hspans : c.process.Spans a n)
    (htasks : c.tasks = [.copy (.ofRead a n)])
    (hold : m.kernel.memory.frames[f.toNat]? = some content) :
    (c.use f).run m = .ok
      (.ongoing { c with tasks := [.copy (.found a n (content.bytesAt a n))], stage := .leaving f })
      (m.withTable c.process ((m.table c.process).markAccess a.page false)) := by
  have hafter : (Copy.ofRead a n).afterRead ⟨a.page, a.offset, n⟩ (content.bytesAt a n) =
      .found a n (content.bytesAt a n) := by
    rw [Copy.afterRead, Copy.found]
    exact congrArg (fun k => (⟨.read, a, n, k, [content.bytesAt a n], []⟩ : Copy)) (Nat.zero_add n)
  have hrun : (Action.transfer c.process (.ofRead a n) ⟨a.page, a.offset, n⟩ f).run m =
      .ok ((Copy.ofRead a n).afterRead ⟨a.page, a.offset, n⟩ (content.bytesAt a n))
        (m.withTable c.process ((m.table c.process).markAccess a.page false)) :=
    Action.run_transfer_read hold hspans.fits rfl
  rw [hafter] at hrun
  simp only [use, htasks, hspans.turn, EStateM.run_bind, hrun, EStateM.run_pure]

section Step

variable (h : m.Sound l) (hframes : ∀ f, c.frame? = some f → f ∈ l.pinned) (hr : c.Recorded m)
  (hp : m.Registered p) (hcontent : m.content? p a.page = some content) (hspans : p.Spans a n)
  (htext : terminatedText? (content.bytesAt a n) = text?) (hc : c.Retrieves p a n text?)
include h hframes hr hp hcontent hspans htext hc

theorem retrieves_of_use (hstage : c.stage = .holding f) (hrun : (c.use f).run m = .ok pr m') :
    pr.Retrieves p a n text? := by
  obtain ⟨rfl, hpurpose, htasks⟩ := hc
  rcases htasks with htasks | ⟨bs, htasks, hbs⟩
  · have hframe : c.frame? = some f := by rw [frame?, hstage]
    obtain ⟨i, hi, howner, hpage⟩ := hr f hframe
    obtain ⟨e, he, hef⟩ := h.entry_of_pinned (hframes f hframe) hi howner hp
    rw [hpage _ _ hstage (wanted?_of_ofRead hspans htasks)] at he
    rw [content?_of_resident he hef] at hcontent
    rw [run_use_of_ofRead hspans htasks hcontent] at hrun
    cases hrun
    exact ⟨rfl, hpurpose, Or.inr ⟨_, rfl, htext⟩⟩
  · simp only [use, htasks, Copy.turn_found] at hrun
    cases hrun
    exact ⟨rfl, hpurpose, Or.inr ⟨bs, rfl, hbs⟩⟩

omit h hframes hr hp hcontent hspans htext in
theorem retrieves_of_seek {page : PageNumber} {kind : AccessKind}
    (hrun : (c.seek page kind).run m = .ok pr m') : pr.Retrieves p a n text? := by
  simp only [seek, EStateM.run_bind] at hrun
  cases hresolve : (Action.resolve c.process page kind).run m with
  | error stop m₁ =>
    rw [hresolve] at hrun
    cases hrun
  | ok grant m₁ =>
    rw [hresolve] at hrun
    cases grant <;>
    · cases hrun
      exact hc.with_stage _

theorem retrieves_of_proceed (hrun : c.proceed.run m = .ok pr m') :
    pr.Retrieves p a n text? := by
  unfold proceed at hrun
  cases hstage : c.stage with
  | seeking =>
    rw [hstage] at hrun
    rcases hc.tasks with htasks | ⟨bs, htasks, hbs⟩
    · rw [begin_of_wanted (wanted?_of_ofRead (hc.process ▸ hspans) htasks)] at hrun
      exact retrieves_of_seek hc hrun
    · rw [begin_of_found hc.purpose htasks] at hrun
      cases hrun
      exact congrArg Answer.text hbs
  | waiting t =>
    simp only [hstage, retry, EStateM.run_bind] at hrun
    cases htake : (takeWakeUp t).run m with
    | error stop m₁ =>
      rw [htake] at hrun
      cases hrun
    | ok woken m₁ =>
      rw [htake] at hrun
      cases woken with
      | false =>
        cases hrun
        exact hc
      | true =>
        simp only [if_true] at hrun
        split at hrun
        · cases hrun
          exact hc.with_stage _
        · simp only [EStateM.run_bind, Action.run_note] at hrun
          exact retrieves_of_seek hc hrun
  | holding f =>
    simp only [hstage] at hrun
    exact retrieves_of_use h hframes hr hp hcontent hspans htext hc hstage hrun
  | leaving f =>
    simp only [hstage, EStateM.run_bind] at hrun
    cases hunpin : (Action.unpin f).run m with
    | error stop m₁ =>
      rw [hunpin] at hrun
      cases hrun
    | ok _ m₁ =>
      rw [hunpin] at hrun
      cases hrun
      exact hc.with_stage _
  | undoing e =>
    simp only [hstage, undo, EStateM.run_bind, Action.run_note] at hrun
    cases hundo : (Action.tearDown c.process).run (m.noted (.spawnFailed c.process.pid e)) with
    | error stop m₁ =>
      rw [hundo] at hrun
      cases hrun
    | ok _ m₁ =>
      rw [hundo] at hrun
      cases hrun
      trivial

/-- **A step of a call that reads a text.** -/
theorem retrieves_of_step : (c.step m).1.Retrieves p a n text? := by
  unfold step
  cases hrun : c.proceed.run m with
  | ok pr m' => exact retrieves_of_proceed h hframes hr hp hcontent hspans htext hc hrun
  | error stop m' =>
    have hpurpose : c.purpose ≠ .spawn := by
      rw [hc.purpose]
      nofun
    cases stop with
    | violation v => trivial
    | error err =>
      simp only [afterFailure, hpurpose, if_false]
      trivial

end Step

/-! ## A text is read -/

/-- A call that goes on runs on if it does not fall asleep. -/
theorem runFor_of_ongoing {c' : Call} (hstep : c.step m = (.ongoing c', m'))
    (hawake : c'.isAsleep m' = false) (k : Nat) : c.runFor (k + 1) m = c'.runFor k m' := by
  rw [runFor, hstep]
  simp only [hawake, Bool.false_eq_true, if_false]

theorem runFor_of_finished {o : Outcome} (hstep : c.step m = (.finished o, m')) (k : Nat) :
    c.runFor (k + 1) m = (.finished o, m') := by
  rw [runFor, hstep]

/-- A call that holds its page and lets nobody interfere reads the bytes and hands over the text. -/
theorem exists_runFor_of_holding (h : m.Sound l) (hf : f ∈ l.pinned)
    (hold : m.kernel.memory.frames[f.toNat]? = some content) (hspans : p.Spans a n) (k : Nat) :
    ∃ m', runFor (k + 3) ⟨p, .text, [.copy (.ofRead a n)], .holding f⟩ m =
      (.finished (.returned (.text (terminatedText? (content.bytesAt a n)))), m') := by
  let found : Call := ⟨p, .text, [.copy (.found a n (content.bytesAt a n))], .leaving f⟩
  let m₁ := m.withTable p ((m.table p).markAccess a.page false)
  obtain ⟨i, hi, hpins, -⟩ := h.info_of_pinned hf
  have hi₁ : m₁.frameInfo? f = some i := hi
  let m₂ := m₁.withFrames (m₁.kernel.frames.dropPin f i)
  have hread : step ⟨p, .text, [.copy (.ofRead a n)], .holding f⟩ m = (.ongoing found, m₁) := by
    have huse := @run_use_of_ofRead m ⟨p, .text, [.copy (.ofRead a n)], .holding f⟩ a n content f
      hspans rfl hold
    simp only [step, proceed, huse]
    rfl
  have hleave : found.step m₁ = (.ongoing { found with stage := .seeking }, m₂) :=
    step_of_leaving rfl hi₁ hpins
  have hconclude : step { found with stage := .seeking } m₂ =
      (.finished (.returned (.text (terminatedText? (content.bytesAt a n)))), m₂) := by
    have hbegin := @begin_of_found { found with stage := .seeking } a n (content.bytesAt a n) rfl rfl
    simp only [step, proceed, hbegin, EStateM.run_pure]
  refine ⟨m₂, ?_⟩
  rw [runFor_of_ongoing hread rfl, runFor_of_ongoing hleave rfl, runFor_of_finished hconclude]

/-- **A text is read if its page can be had.** -/
theorem exists_run_readText (h : m.Sound l) (hp : m.Registered p)
    (hcontent : m.content? p a.page = some content)
    (hinit : ∃ page, p.initialContent a.page = .ok page)
    (hserve : m.CanServe p a.page) {max : Nat} (hspans : p.Spans a (textLength p a max)) :
    ∃ m', (readText p a max).run m = (.finished (.returned
      (.text (terminatedText? (content.bytesAt a (textLength p a max))))), m') := by
  obtain ⟨page, hpage⟩ := hinit
  have hentry : ∃ e, m.entryOf? p a.page = some e := by
    cases he : m.entryOf? p a.page with
    | some e => exact ⟨e, rfl⟩
    | none =>
      simp only [content?, he] at hcontent
      cases hcontent
  obtain ⟨e, he⟩ := hentry
  have hread : (AccessKind.read.isWrite && e.readOnly) = false := rfl
  obtain ⟨f, m₁, hresolve⟩ := Action.exists_pinned_of_canServe h hp he hread hpage hserve
  have hspec := Action.resolve_spec h (h.census.mem hp) a.page .read
  rw [hresolve] at hspec
  cases hspec with
  | pinned registered sound keeps info idle_le le_idle waiters orderly =>
    obtain ⟨i, hi, howner, hipage⟩ := info
    have hp₁ := (keeps.registered p).mpr hp
    obtain ⟨e₁, he₁, hef⟩ := sound.entry_of_pinned List.mem_cons_self hi howner hp₁
    rw [hipage] at he₁
    have hold : m₁.kernel.memory.frames[f.toNat]? = some content := by
      rw [← content?_of_resident he₁ hef, keeps.content p a.page hp, hcontent]
    have hseek : (readText p a max).step m = (.ongoing
        ⟨p, .text, [.copy (.ofRead a (textLength p a max))], .holding f⟩, m₁) := by
      have hwanted := @wanted?_of_ofRead (readText p a max) a _ hspans rfl
      rw [step_of_seeking hwanted rfl]
      exact congrArg (afterSeek _) hresolve
    obtain ⟨k, hk⟩ : ∃ k, (readText p a max).stepsLeft = k + 3 + 1 :=
      ⟨4 * (textLength p a max - 0) + 5, rfl⟩
    rw [run, hk, runFor_of_ongoing hseek rfl]
    exact exists_runFor_of_holding sound List.mem_cons_self hold hspans k

end Call

/-! ## Arguments are read back -/

/-- A part of a part that begins where the whole begins. -/
theorem Bytes.take_slice {k n : Nat} (h : k ≤ n) (bs : Bytes) (start : Nat) :
    (bs.slice start n).take k = bs.slice start k := by
  rw [slice, slice, List.take_take, Nat.min_eq_left h]

namespace ArgumentBlock.LaidOut

variable {argv a : VirtualAddress} {args : List String} {content : Page} {i : Nat} {text : String}
  (h : LaidOut argv (args.map textBytes) content.bytes) (harg : args[i]? = some text)
include h harg

/-- There is room for an argument and the zero behind it. -/
theorem room (hsize : size (args.map textBytes) ≤ pageSize) :
    stringOffset (args.map textBytes) i + ((textBytes text).length + 1) ≤ pageSize := by
  have harg' : (args.map textBytes)[i]? = some (textBytes text) := by
    rw [List.getElem?_map, harg, Option.map_some]
  have hapart := h.apart i (i + 1) _ harg' (Nat.lt_succ_self i)
  have hfits := h.fits (i + 1)
  omega

/-- **Where an argument lies its text can be read**, however far one looks. -/
theorem terminatedText?_bytesAt (hnul : Char.ofNat 0 ∉ text.toList)
    (ha : a.offset.toNat = stringOffset (args.map textBytes) i) {n : Nat}
    (hn : (textBytes text).length + 1 ≤ n) :
    terminatedText? (content.bytesAt a n) = some text := by
  have harg' : (args.map textBytes)[i]? = some (textBytes text) := by
    rw [List.getElem?_map, harg, Option.map_some]
  obtain ⟨-, -, -, hbytes⟩ := h.argument i _ harg'
  have htake : (content.bytesAt a n).take ((textBytes text).length + 1) = textBytes text ++ [0] := by
    rw [Page.bytesAt, Bytes.take_slice hn, ha, hbytes]
  rw [← List.take_append_drop ((textBytes text).length + 1) (content.bytesAt a n), htake,
    List.append_assoc]
  exact terminatedText?_textBytes hnul _

end ArgumentBlock.LaidOut

namespace System

variable {s s' : System} {loose : List FrameNumber} {broken : List ProcessId} {p : UserProcess}
  {final? : Option Bytes} {content : Page}

/-- Whoever looks for a text at `a`, of at most `max` bytes, finds `text` there: a call that looks for
it goes on, or hands over this text, or fails; and if the page can be had it does not fail when
nothing else happens. -/
structure Holds (s : System) (p : UserProcess) (a : VirtualAddress) (max : Nat) (text : String) :
    Prop where
  kept : ∀ c ∈ s.calls, c.Retrieves p a (Call.textLength p a max) (some text) →
    (c.step s.machine).1.Retrieves p a (Call.textLength p a max) (some text)
  served : s.machine.CanServe p a.page → ∃ m',
    (Call.readText p a max).run s.machine = (.finished (.returned (.text (some text))), m')

/-- The arguments of a process can be read at their addresses. -/
theorem Arranged.holds (ha : s.Arranged p content) (h : s.Sound loose broken) {args : List String}
    (hp : p.Takes (args.map textBytes))
    (hlaid : ArgumentBlock.LaidOut p.argv (args.map textBytes) content.bytes) {i : Nat}
    {text : String} (harg : args[i]? = some text) (hnul : Char.ofNat 0 ∉ text.toList)
    {a : VirtualAddress}
    (haddress : a.toNat = p.argv.toNat + ArgumentBlock.stringOffset (args.map textBytes) i)
    {max : Nat} (hmax : (textBytes text).length ≤ max) : s.Holds p a max text := by
  obtain ⟨sections, stackPages, hlayout⟩ := hp.layout
  have hlast := Layout.toNat_argumentPage hlayout
  obtain ⟨hargv, hoffset, hbase, -⟩ := PageNumber.base?_spec hp.argv
  have hroom := hlaid.room harg hp.size
  obtain ⟨hpage, ho⟩ := ArgumentBlock.offset_of_toNat hoffset haddress (by omega)
  rw [hargv] at hpage
  have hlength : Call.textLength p a max =
      min (max + 1) (pageSize - ArgumentBlock.stringOffset (args.map textBytes) i) := by
    rw [Call.textLength, UserProcess.numPages, ← hlast, haddress, hbase, Nat.succ_mul,
      Nat.add_sub_add_left]
  have hspans : p.Spans a (Call.textLength p a max) := by
    refine ⟨by omega, by omega, ?_⟩
    rw [hpage]
    exact decide_eq_true (by omega)
  have htext : terminatedText? (content.bytesAt a (Call.textLength p a max)) = some text :=
    hlaid.terminatedText?_bytesAt harg hnul ho (by omega)
  have hcontent := ha.content
  rw [← hpage] at hcontent
  refine ⟨fun c hc hretrieves => ?_, fun hserve => ?_⟩
  · obtain ⟨-, -, hr⟩ := h.calls c hc
    exact Call.retrieves_of_step h.machine (fun f hf => mem_pins_of_call hc hf) hr ha.registered
      hcontent hspans htext hretrieves
  · have hinit : p.initialContent a.page = .ok Page.zero := by
      rw [UserProcess.initialContent, hpage, Layout.source?_argumentPage hlayout]
    rw [← htext]
    exact Call.exists_run_readText h.machine ha.registered hcontent ⟨_, hinit⟩ hserve hspans

end System

end DemandPaging
