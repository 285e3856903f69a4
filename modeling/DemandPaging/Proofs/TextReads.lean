import DemandPaging.Proofs.MemoryAccess
import DemandPaging.Proofs.Texts
import DemandPaging.Proofs.UndisturbedCopies

/-!
# Texts in memory

Whoever reads a text reads bytes as far as the text may go, and no further than the address space, and
then looks for a zero among them. So a text that was written with a zero behind it is found again, if
it is not longer than was allowed. What counts in between are the bytes of the text only: other moves
may write to the same page, and the page may be evicted and brought in again as often as they like
(`System.LeavesRange`).
-/

namespace DemandPaging

open Machine

/-- The address is one of the `n` addresses from `start` on. -/
def VirtualAddress.Within (start : VirtualAddress) (n : Nat) (b : VirtualAddress) : Prop :=
  start.toNat ≤ b.toNat ∧ b.toNat < start.toNat + n

/-- The bytes that `p` finds from `start` on, as far as a text of at most `max` bytes and the zero
behind it may go, and no further than the address space. They hold a text exactly if one of them is
zero, and the text is what the bytes in front of the first zero say. -/
structure Machine.HoldsText (m : Machine) (p : UserProcess) (start : VirtualAddress)
    (max : Nat) (bytes : Bytes) (text? : Option String) : Prop where
  length : bytes.length = min (max + 1) (p.numPages * pageSize - start.toNat)
  found : ∀ i < bytes.length, bytes[i]? = (start.add? i).bind (m.byte? p)
  isSome : text?.isSome = true ↔ 0 ∈ bytes
  text : ∀ before rest, bytes = before ++ 0 :: rest → 0 ∉ before →
    text? = some (Utf8.decodeLossy before)

namespace System

variable {s s' : System} {loose : List FrameNumber} {broken : List ProcessId}
  {allowed : System → Move → Prop} {seen : VirtualAddress → Prop} {p : UserProcess}
  {start : VirtualAddress} {n k max : Nat} {a : Answer} {mv : Move}

/-! ## Bytes that are left alone -/

/-- There is room for the move, it does not tear the process down, and it writes to none of the `n`
addresses from `start` on. -/
structure LeavesRange (p : UserProcess) (start : VirtualAddress) (n : Nat) (s : System) (mv : Move) :
    Prop where
  room : s.HasRoom mv
  torn : s.torn? mv ≠ some p.pid
  written : ∀ q page offset bytes, s.writing? mv = some (q, page, offset, bytes) → q.pid = p.pid →
    ∀ b : VirtualAddress, b.page = page → offset ≤ b.offset.toNat →
      b.offset.toNat < offset + bytes.length → ¬ start.Within n b

/-- A process finds the bytes that it found, whatever else is written to their page. -/
theorem LeavesRange.byte?_after (h : s.LeavesRange p start n mv) (hs : s.Sound loose broken)
    (hp : s.machine.Registered p) {b : VirtualAddress} (hb : start.Within n b) :
    (s.after mv).machine.byte? p b = s.machine.byte? p b := by
  by_cases htarget : s.target? mv = some (p.pid, b.page)
  · rw [target?, Option.map_eq_some_iff] at htarget
    obtain ⟨⟨q, page, offset, bytes⟩, hw, heq⟩ := htarget
    obtain ⟨hqp, rfl⟩ := Prod.mk.inj heq
    obtain ⟨old, new, hold, hnew, hbytes⟩ := exists_written hs hp hw hqp
    have hout : ¬ (offset ≤ b.offset.toNat ∧ b.offset.toNat < offset + bytes.length) :=
      fun hin => h.written q b.page offset bytes hw hqp b rfl hin.1 hin.2 hb
    rw [byte?, byte?, hnew, hold, Option.bind_some, Option.bind_some, hbytes, if_neg hout]
  · exact byte?_of_content? ((moved hs h.room).spares.content p b.page hp h.torn htarget)

theorem preserves_leavesRange (p : UserProcess) (start : VirtualAddress) (n : Nat) :
    Preserves (LeavesRange p start n) (· = p) (start.Within n) := by
  refine ⟨fun s mv h => h.room, fun s mv loose broken hs h q hq hp => ?_⟩
  subst hq
  exact ⟨(moved hs h.room).spares.registered q hp h.torn, fun b hb => h.byte?_after hs hp hb⟩

/-! ## Texts are read -/

/-- A call that returns a text has found it in the bytes that it has read. -/
theorem ServesAmid.text (h : ServesAmid allowed s k (.text start max) (.returned a) s')
    (hall : Preserves allowed (· = p) seen) (hs : s.Sound loose broken)
    (hk : s.processes[k]? = some p) (hp : s.machine.Registered p)
    (hmax : p.numPages ≤ maxProcessPages) :
    ∃ bytes, a = .text (terminatedText? bytes) ∧
      bytes.length = min (max + 1) (p.numPages * pageSize - start.toNat) ∧
      ∀ b, seen b → start.Within bytes.length b → bytes[b.toNat - start.toNat]? = s.machine.byte? p b := by
  have hcopies : ((Request.text start max).toCall p).Copies .text p
      (.ofRead start (Call.textLength p start max)) := ⟨nofun, rfl, rfl, rfl, fun _ => nofun⟩
  obtain ⟨copy, rfl, hdone, hreach, -⟩ := h.returned hall hs hk hp hmax rfl hcopies
    (Copy.reaches_ofRead p s.machine start _) rfl
  obtain ⟨hcount, hfound⟩ := hreach.found rfl
  refine ⟨copy.bytes, rfl, ?_, fun b hb hwithin => hfound b hb hwithin.1 (hcount ▸ hwithin.2)⟩
  rw [hcount, hdone]
  exact Nat.min_eq_left (Nat.min_le_right ..)

/-! ## Texts that were written -/

/-- The process lives, and finds the bytes from `start` on. -/
structure Finds (m : Machine) (p : UserProcess) (start : VirtualAddress) (bytes : Bytes) : Prop where
  registered : m.Registered p
  bytes : ∀ b, start.Within bytes.length b → m.byte? p b = bytes[b.toNat - start.toNat]?

/-- What was written inside the address space is found. -/
theorem ServesAmid.finds {data : Bytes} (h : ServesAmid allowed s k (.write start data) (.returned a) s')
    (hall : Preserves allowed (· = p) (start.Within data.length)) (hs : s.Sound loose broken)
    (hk : s.processes[k]? = some p) (hp : s.machine.Registered p)
    (hmax : p.numPages ≤ maxProcessPages)
    (hinside : start.toNat + data.length ≤ p.numPages * pageSize) :
    Finds s'.machine p start data := by
  have hcopies : ((Request.write start data).toCall p).Copies .plain p (.ofWrite start data) :=
    ⟨nofun, rfl, rfl, rfl, fun _ => nofun⟩
  obtain ⟨copy, rfl, hdone, -, hover⟩ := h.returned hall hs hk hp hmax rfl hcopies
    (Copy.reaches_ofWrite p s.machine start data) rfl
  have hwhole : copy.done = data.length := by
    rw [hdone, Copy.reach]
    exact Nat.min_eq_left (Nat.le_sub_of_add_le (Nat.add_comm .. ▸ hinside))
  refine ⟨hover.registered p rfl hp, fun b hb => ?_⟩
  rw [hover.bytes p rfl hp b hb, if_pos ⟨rfl, rfl, hb.1, hwhole ▸ hb.2⟩]
  rfl

/-- What is left alone is found again. -/
theorem Reachable.finds {bytes : Bytes} (h : Reachable (LeavesRange p start bytes.length) s s')
    (hs : s.Sound loose broken) (hfinds : Finds s.machine p start bytes) :
    Finds s'.machine p start bytes := by
  have hall := preserves_leavesRange p start bytes.length
  refine h.invariant_of_room (P := fun t => Finds t.machine p start bytes) hall.room hs hfinds
    fun t mv loose broken ht hmv ih => ?_
  obtain ⟨hreg, hbytes⟩ := hall.kept t mv loose broken ht hmv p rfl ih.registered
  exact ⟨hreg, fun b hb => (hbytes b hb).trans (ih.bytes b hb)⟩

section Reads

variable {config : Config} {swap : Swap} {m : Machine} (hboot : Machine.boot config swap = .ok m)
  (hs : Reachable HasRoom (ofMachine m) s) (hk : s.processes[k]? = some p)
  (hp : s.machine.Registered p)
include hboot hs hk hp

/-- A text that is found is what lies in front of the first zero. -/
theorem ServesAmid.holdsText {n : Nat} (hn : n = min (max + 1) (p.numPages * pageSize - start.toNat))
    (h : ServesAmid (LeavesRange p start n) s k (.text start max) (.returned a) s') :
    ∃ text? bytes, a = .text text? ∧ s.machine.HoldsText p start max bytes text? := by
  obtain ⟨loose, broken, hsound⟩ := hs.sound (sound_boot hboot)
  have hmax := hs.numPages_le hboot p (List.mem_of_getElem? hk)
  obtain ⟨bytes, rfl, hlength, hbytes⟩ := h.text (preserves_leavesRange p start _) hsound hk hp hmax
  refine ⟨terminatedText? bytes, bytes, rfl, hlength, fun i hi => ?_, isSome_terminatedText? bytes,
    fun before rest heq hzero => heq ▸ terminatedText?_append hzero rest⟩
  obtain ⟨b, hb⟩ := VirtualAddress.exists_add? (a := start) (d := i) hmax (by omega)
  have htoNat := VirtualAddress.toNat_of_add? hb
  have hwithin : start.Within bytes.length b := ⟨by omega, by omega⟩
  rw [hb, Option.bind_some, ← hbytes b (by rwa [hn, ← hlength]) hwithin, htoNat,
    Nat.add_sub_cancel_left]

/-- A text that was written is found if it is not longer than was allowed. -/
theorem text_of_serves {text : String} (hnul : Char.ofNat 0 ∉ text.toList)
    (hinside : start.toNat + ((textBytes text).length + 1) ≤ p.numPages * pageSize) {n : Nat}
    (hn : n = (textBytes text).length + 1) {copy : Answer} {s₁ s₂ : System} {k₂ : Nat}
    (hwrite : ServesAmid (LeavesRange p start n) s k (.write start (textBytes text ++ [0]))
      (.returned copy) s₁) (hmoves : Reachable (LeavesRange p start n) s₁ s₂)
    (hk₂ : s₂.processes[k₂]? = some p)
    (hread : ServesAmid (LeavesRange p start n) s₂ k₂ (.text start max) (.returned a) s') :
    a = .text (if (textBytes text).length ≤ max then some text else none) := by
  obtain ⟨loose, broken, hsound⟩ := hs.sound (sound_boot hboot)
  have hmax := hs.numPages_le hboot p (List.mem_of_getElem? hk)
  have hdata : (textBytes text ++ [0]).length = (textBytes text).length + 1 := List.length_append
  rw [← hdata] at hn hinside
  subst hn
  have hall := preserves_leavesRange p start (textBytes text ++ [0]).length
  have hfinds := hwrite.finds hall hsound hk hp hmax hinside
  have hs₁ : Reachable HasRoom (ofMachine m) s₁ :=
    CompletesAmid.reachable hwrite hall.room (hs.move _ trivial)
  obtain ⟨loose₁, broken₁, hsound₁⟩ := hs₁.sound (sound_boot hboot)
  obtain ⟨loose₂, broken₂, hsound₂⟩ := (hs₁.trans (hmoves.mono hall.room)).sound (sound_boot hboot)
  have hfinds₂ := hmoves.finds hsound₁ hfinds
  obtain ⟨bytes, rfl, hlength, hbytes⟩ := hread.text hall hsound₂ hk₂ hfinds₂.registered hmax
  rw [terminatedText?_of_agree hnul fun i hi hle => ?_, hlength]
  · have hroom : (textBytes text).length < min (max + 1) (p.numPages * pageSize - start.toNat) ↔
        (textBytes text).length ≤ max := by omega
    simp only [hroom]
  · obtain ⟨b, hb⟩ := VirtualAddress.exists_add? (a := start) (d := i) hmax (by omega)
    have htoNat := VirtualAddress.toNat_of_add? hb
    have hwithin : start.Within (textBytes text ++ [0]).length b := ⟨by omega, by omega⟩
    have hfound := (hbytes b hwithin ⟨by omega, by omega⟩).trans (hfinds₂.bytes b hwithin)
    rwa [htoNat, Nat.add_sub_cancel_left] at hfound

/-- A read that nobody disturbs returns, if the pages can be had. -/
theorem exists_serves_text (hready : s.machine.CanBringIn)
    (hpins : ∀ f i, s.machine.frameInfo? f = some i → i.pins < FrameInfo.maxPins)
    (hprovided : ∀ page, p.contains page = true → ∃ content, p.initialContent page = .ok content)
    (start : VirtualAddress) (max : Nat) :
    ∃ a s', ServesAmid allowed s k (.text start max) (.returned a) s' := by
  obtain ⟨loose, broken, hsound⟩ := hs.sound (sound_boot hboot)
  have hmended : s.machine.Sound _ :=
    hsound.machine.mend (List.nil_subset _) fun pid _ _ f => hready.owners f pid
  have hreadable : s.machine.Readable _ p :=
    ⟨⟨hmended, rfl, hready.store, hready.encodable, hready.idle, hpins⟩, hp,
      hs.marked hboot p (List.mem_of_getElem? hk), hprovided⟩
  have hsteps : 3 * (Call.textLength p start max - 0) < (Call.readText p start max).stepsLeft := by
    change _ < 4 * (Call.textLength p start max - 0) + 4 + 5
    omega
  have hpurpose : Purpose.text ≠ .spawn := nofun
  have hkind : (Copy.ofRead start (Call.textLength p start max)).kind = .read := rfl
  obtain ⟨copy, m', hrun⟩ := Call.exists_runFor_of_readable hpurpose hreadable hkind hsteps
  change ((Request.text start max).toCall p).run s.machine = _ at hrun
  obtain ⟨s', hserves, -⟩ := exists_serves_of_run hk hrun
  exact ⟨_, s', hserves⟩

end Reads

/-- **Texts are read back.** In every system that moves lead to from a machine that has just started,
let a process that lives read a text of at most `max` bytes, while nobody else writes to the bytes that
are looked at. If the call returns, it hands over the text that these bytes hold. So if a text without
a zero in it is written inside the address space, with a zero behind it, and nobody else writes to
these bytes, then it is found from now on by whoever looks for a text there that may be as long, and
nobody finds a text who looks for a shorter one. A read that nobody disturbs does return, if the pages
can be had. -/
theorem texts_are_read_back {config : Config} {swap : Swap} {m : Machine}
    (hboot : Machine.boot config swap = .ok m) (hs : Reachable HasRoom (ofMachine m) s)
    (hk : s.processes[k]? = some p) (hp : s.machine.Registered p) (start : VirtualAddress) :
    (∀ max a s', ServesAmid (LeavesRange p start (min (max + 1) (p.numPages * pageSize - start.toNat)))
        s k (.text start max) (.returned a) s' →
      ∃ text? bytes, a = .text text? ∧ s.machine.HoldsText p start max bytes text?) ∧
    (∀ text : String, Char.ofNat 0 ∉ text.toList →
      start.toNat + ((textBytes text).length + 1) ≤ p.numPages * pageSize →
      ∀ copy s₁ s₂ k₂ max a s',
        ServesAmid (LeavesRange p start ((textBytes text).length + 1)) s k
          (.write start (textBytes text ++ [0])) (.returned copy) s₁ →
        Reachable (LeavesRange p start ((textBytes text).length + 1)) s₁ s₂ →
        s₂.processes[k₂]? = some p →
        ServesAmid (LeavesRange p start ((textBytes text).length + 1)) s₂ k₂ (.text start max)
          (.returned a) s' →
        a = .text (if (textBytes text).length ≤ max then some text else none)) ∧
    (s.machine.CanBringIn →
      (∀ f i, s.machine.frameInfo? f = some i → i.pins < FrameInfo.maxPins) →
      (∀ page, p.contains page = true → ∃ content, p.initialContent page = .ok content) →
      ∀ allowed max, ∃ a s', ServesAmid allowed s k (.text start max) (.returned a) s') :=
  ⟨fun _ _ _ h => h.holdsText hboot hs hk hp rfl,
    fun _ hnul hinside _ _ _ _ _ _ _ hwrite hmoves hk₂ hread =>
      text_of_serves hboot hs hk hp hnul hinside rfl hwrite hmoves hk₂ hread,
    fun hready hpins hprovided _ max => exists_serves_text hboot hs hk hp hready hpins hprovided start max⟩

/-- A system with one frame, in which a text of three bytes was written across the end of a page. -/
def lettered : System := settled.run [.request 0 (.write ⟨1022⟩ [97, 98, 99, 0]), .step 0, .step 0,
  .step 0, .step 0, .step 0, .step 0, .step 0]

theorem textBytes_abc : textBytes "abc" = [97, 98, 99] := by
  rw [textBytes_eq]
  decide

set_option maxRecDepth 20000 in
/-- The text is found by who looks for three bytes, and not by who looks for two. -/
theorem texts_are_read_back_lettered : ∃ s₁ s₂,
    ServesAmid (LeavesRange (settled.processes.head (List.cons_ne_nil _ _)) ⟨1022⟩ 4) lettered 0
      (.text ⟨1022⟩ 3) (.returned (.text (some "abc"))) s₁ ∧
    ServesAmid (LeavesRange (settled.processes.head (List.cons_ne_nil _ _)) ⟨1022⟩ 4) lettered 0
      (.text ⟨1022⟩ 2) (.returned (.text none)) s₂ := by
  let p := settled.processes.head (List.cons_ne_nil _ _)
  have hboot : Machine.boot ⟨1, 1, true⟩ (.empty none) = .ok (fresh 1) := rfl
  have hsettled : History HasRoom (ofMachine (fresh 1)) settled [] :=
    History.start.run (by decide +kernel)
  have hwrite : ServesAmid (LeavesRange p ⟨1022⟩ 4) settled 0 (.write ⟨1022⟩ [97, 98, 99, 0])
      (.returned (.copied ⟨.write, ⟨1022⟩, 4, 4, [], []⟩)) lettered :=
    .steps rfl (.steps rfl (.steps rfl (.steps rfl (.steps rfl (.steps rfl (.ends rfl))))))
  have hlettered : History HasRoom (ofMachine (fresh 1)) lettered [] :=
    hsettled.run (by decide +kernel)
  obtain ⟨loose, hsound⟩ := hlettered.sound hboot fun _ _ ha => ha
  have hready : lettered.machine.CanBringIn :=
    ⟨by decide +kernel, by decide +kernel, hsound.machine.not_orphaned rfl, rfl, fun _ => rfl⟩
  have hpins : ∀ f i, lettered.machine.frameInfo? f = some i → i.pins < FrameInfo.maxPins := by
    intro f i hi
    obtain rfl := FrameTable.eq_zero_of_info? rfl hi
    cases hi
    decide
  have hprovided : ∀ page, p.contains page = true → ∃ content, p.initialContent page = .ok content := by
    intro page hpage
    replace hpage : page.toNat < 3 := of_decide_eq_true hpage
    rw [← page.ofNat_toNat]
    obtain h | h | h : page.toNat = 0 ∨ page.toNat = 1 ∨ page.toNat = 2 := by omega
    all_goals
      rw [h]
      exact ⟨_, rfl⟩
  obtain ⟨-, hfound, -⟩ :=
    texts_are_read_back (p := p) (k := 0) hboot hsettled.reachable rfl rfl ⟨1022⟩
  obtain ⟨-, -, hreturns⟩ :=
    texts_are_read_back (p := p) (k := 0) hboot hlettered.reachable rfl rfl ⟨1022⟩
  replace hfound := hfound "abc" (by decide)
  simp only [textBytes_abc] at hfound
  replace hfound := fun max a s' => hfound (by decide) _ _ lettered 0 max a s' hwrite .start rfl
  obtain ⟨a₁, s₁, hread₁⟩ := hreturns hready hpins hprovided (LeavesRange p ⟨1022⟩ 4) 3
  obtain ⟨a₂, s₂, hread₂⟩ := hreturns hready hpins hprovided (LeavesRange p ⟨1022⟩ 4) 2
  obtain rfl := hfound 3 a₁ s₁ hread₁
  obtain rfl := hfound 2 a₂ s₂ hread₂
  exact ⟨s₁, s₂, hread₁, hread₂⟩

end System

end DemandPaging
