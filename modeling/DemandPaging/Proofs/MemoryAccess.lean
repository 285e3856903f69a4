import DemandPaging.Proofs.FlatCopies

/-!
# Access to memory through buffers

An access copies between a part of a buffer and the memory of a process. `Machine.CopiedFlat` says
what one such copy does to buffer and memory if memory is one string of bytes, and
`System.copies_are_flat` that every access does just this: with all bytes of the range that lie in the
address space if it returns, and with those in front of a page if it fails there.
-/

namespace DemandPaging

open Machine

/-! ## Buffers -/

/-- The copy between memory and `length` bytes of a buffer, from position `offset` on. -/
def Copy.ofAccess (start : VirtualAddress) (buffer : Bytes) (offset length : Nat) :
    AccessKind → Copy
  | .read => .ofRead start length
  | .write => .ofWrite start (buffer.slice offset length)

/-- The request for this copy. -/
def Request.access (start : VirtualAddress) (buffer : Bytes) (offset length : Nat) :
    AccessKind → Request
  | .read => .read start length
  | .write => .write start (buffer.slice offset length)

/-- From `m` to `m'`, `n` bytes were copied between the buffer, from position `offset` on, and the
memory of `p`, from `start` on, as if that memory were one string of bytes. Nothing else has changed
in the buffer, which is `buffer'` now, nor in what the spared processes find in memory. -/
structure Machine.CopiedFlat (m m' : Machine) (spared : UserProcess → Prop) (p : UserProcess)
    (start : VirtualAddress) (buffer buffer' : Bytes) (offset n : Nat) (kind : AccessKind) :
    Prop where
  length : buffer'.length = buffer.length
  inside : ∀ k < n, buffer'[offset + k]? =
    match kind with
    | .read => (start.add? k).bind (m.byte? p)
    | .write => buffer[offset + k]?
  outside : ∀ j, j < offset ∨ offset + n ≤ j → buffer'[j]? = buffer[j]?
  registered : ∀ q, spared q → m.Registered q → m'.Registered q
  memory : ∀ q, spared q → m.Registered q → ∀ b, m'.byte? q b =
    if kind = .write ∧ q.pid = p.pid ∧ start.toNat ≤ b.toNat ∧ b.toNat < start.toNat + n
    then buffer[offset + (b.toNat - start.toNat)]? else m.byte? q b

section Buffers

variable {m m' m₁ m₂ : Machine} {spared : UserProcess → Prop} {p : UserProcess}
  {start : VirtualAddress} {buffer buffer' : Bytes} {offset length n : Nat} {kind : AccessKind}
  {copy : Copy}

/-- An access to memory is the call that serves the request. -/
theorem Call.access_eq_ok (h : offset + length ≤ buffer.length) (p : UserProcess)
    (start : VirtualAddress) (kind : AccessKind) : Call.access p start buffer offset length kind =
      .ok ((Request.access start buffer offset length kind).toCall p) := by
  unfold Call.access
  rw [if_neg (Nat.not_lt.mpr h)]
  cases kind <;> rfl

theorem Copy.kind_ofAccess (start : VirtualAddress) (buffer : Bytes) (offset length : Nat)
    (kind : AccessKind) : (ofAccess start buffer offset length kind).kind = kind := by
  cases kind <;> rfl

theorem Copy.start_ofAccess (start : VirtualAddress) (buffer : Bytes) (offset length : Nat)
    (kind : AccessKind) : (ofAccess start buffer offset length kind).start = start := by
  cases kind <;> rfl

theorem Copy.length_ofAccess (h : offset + length ≤ buffer.length) (start : VirtualAddress)
    (kind : AccessKind) : (ofAccess start buffer offset length kind).length = length := by
  cases kind with
  | read => rfl
  | write => exact Bytes.length_slice h

/-- The call that serves the request makes the copy. -/
theorem Request.copies_access (p : UserProcess) (start : VirtualAddress) (buffer : Bytes)
    (offset length : Nat) (kind : AccessKind) :
    ((access start buffer offset length kind).toCall p).Copies .plain p
      (.ofAccess start buffer offset length kind) := by
  cases kind <;> exact ⟨nofun, rfl, rfl, rfl, fun _ => nofun⟩

/-- A copy that has not begun. -/
theorem Copy.reaches_ofAccess (p : UserProcess) (m : Machine) (seen : VirtualAddress → Prop)
    (start : VirtualAddress) (buffer : Bytes) (offset length : Nat) (kind : AccessKind) :
    Reaches (ofAccess start buffer offset length kind) (ofAccess start buffer offset length kind) p
      m seen ∧ (ofAccess start buffer offset length kind).done = 0 := by
  cases kind with
  | read => exact ⟨reaches_ofRead .., rfl⟩
  | write => exact ⟨reaches_ofWrite .., rfl⟩

namespace Machine.CopiedFlat

/-- What the invariants of a copy say about buffer and memory. -/
theorem of_reaches (hfits : offset + length ≤ buffer.length) (hmax : p.numPages ≤ maxProcessPages)
    (hreach : (Copy.ofAccess start buffer offset length kind).Reaches copy p m fun _ => True)
    (hover : m.Overlaid m' spared (fun _ => True) p (.ofAccess start buffer offset length kind)
      copy.done) :
    m.CopiedFlat m' spared p start buffer (copy.fill buffer offset) offset copy.done kind := by
  have hbound := hreach.bound
  rw [Copy.reach, Copy.length_ofAccess hfits, Copy.start_ofAccess] at hbound
  have hlength := Nat.le_trans hbound (Nat.min_le_left ..)
  have hkind := hreach.kind.trans (Copy.kind_ofAccess ..)
  have hmemory := hover.bytes
  simp only [Copy.kind_ofAccess, Copy.start_ofAccess] at hmemory
  cases kind with
  | read =>
    obtain ⟨hcount, hfound⟩ := hreach.found rfl
    have hfill : copy.fill buffer offset = buffer.overwrite offset copy.bytes := by
      rw [Copy.fill, hkind]
    have hroom : offset + copy.bytes.length ≤ buffer.length := by omega
    have hget := Bytes.getElem?_overwrite hroom
    rw [hfill]
    refine ⟨Bytes.length_overwrite hroom, fun k hk => ?_, fun j hj => ?_, hover.registered,
      fun q hq hqm b => ?_⟩
    · replace hmax : p.layout.numPages ≤ maxProcessPages := hmax
      obtain ⟨b, hb⟩ := VirtualAddress.exists_add? (a := start) (d := k) hmax (by omega)
      have htoNat := VirtualAddress.toNat_of_add? hb
      have hbyte := hfound b trivial (by rw [Copy.start_ofAccess]; omega)
        (by rw [Copy.start_ofAccess]; omega)
      rw [Copy.start_ofAccess, htoNat, Nat.add_sub_cancel_left] at hbyte
      rw [hget, if_pos (by omega), Nat.add_sub_cancel_left, hbyte]
      simp only [hb, Option.bind_some]
    · rw [hget, if_neg (by omega)]
    · rw [hmemory q hq hqm b trivial, if_neg (fun h => by cases h.1), if_neg (fun h => by cases h.1)]
  | write =>
    have hfill : copy.fill buffer offset = buffer := by rw [Copy.fill, hkind]
    rw [hfill]
    refine ⟨rfl, fun k _ => rfl, fun j _ => rfl, hover.registered, fun q hq hqm b => ?_⟩
    rw [hmemory q hq hqm b trivial]
    by_cases hin : q.pid = p.pid ∧ start.toNat ≤ b.toNat ∧ b.toNat < start.toNat + copy.done
    · rw [if_pos ⟨rfl, hin⟩, if_pos ⟨rfl, hin⟩]
      exact Bytes.getElem?_slice (by omega)
    · rw [if_neg (fun h => hin h.2), if_neg (fun h => hin h.2)]

/-- A write leaves the buffer as it is. -/
theorem eq_of_write (h : m.CopiedFlat m' spared p start buffer buffer' offset n .write) :
    buffer' = buffer := by
  refine List.ext_getElem? fun j => ?_
  by_cases hin : offset ≤ j ∧ j < offset + n
  · have hinside := h.inside (j - offset) (by omega)
    rwa [Nat.add_sub_cancel' hin.1] at hinside
  · exact h.outside j (by omega)

/-- **Two copies are one.** If the second goes on where the first ended, they leave the same buffer
and the same memory as one copy of the whole range. -/
theorem append {whole first second : Bytes} {mid : VirtualAddress} {l n₁ n₂ : Nat}
    (hwhole : m.CopiedFlat m' spared p start buffer whole offset (n₁ + n₂) kind)
    (hfirst : m.CopiedFlat m₁ spared p start buffer first offset n₁ kind)
    (hsecond : m₁.CopiedFlat m₂ spared p mid first second (offset + l) n₂ kind)
    (hmid : start.add? l = some mid) (hn₁ : n₁ ≤ l) (hn₂ : n₂ = 0 ∨ n₁ = l) (hspared : spared p)
    (hp : m.Registered p) :
    second = whole ∧ ∀ q, spared q → m.Registered q → ∀ b, m₂.byte? q b = m'.byte? q b := by
  have htoNat := VirtualAddress.toNat_of_add? hmid
  constructor
  · cases kind with
    | write => rw [hsecond.eq_of_write, hfirst.eq_of_write, hwhole.eq_of_write]
    | read =>
      refine List.ext_getElem? fun j => ?_
      have hsame := hfirst.memory p hspared hp
      by_cases hbehind : offset + l ≤ j ∧ j < offset + l + n₂
      · obtain ⟨d, rfl⟩ := Nat.exists_eq_add_of_le hbehind.1
        have hcount : n₁ = l := by omega
        have h₂ := hsecond.inside d (by omega)
        have h := hwhole.inside (l + d) (by omega)
        rw [← Nat.add_assoc] at h
        rw [h, h₂]
        simp only [VirtualAddress.add?_add hmid]
        refine congrArg (Option.bind _) (funext fun b => ?_)
        rw [hsame, if_neg (fun hw => nomatch hw.1)]
      · rw [hsecond.outside j (by omega)]
        by_cases hin : offset ≤ j ∧ j < offset + n₁
        · obtain ⟨d, rfl⟩ := Nat.exists_eq_add_of_le hin.1
          rw [hfirst.inside d (by omega), hwhole.inside d (by omega)]
        · rw [hfirst.outside j (by omega), hwhole.outside j (by omega)]
  · intro q hq hqm b
    rw [hsecond.memory q hq (hfirst.registered q hq hqm), hfirst.memory q hq hqm,
      hwhole.memory q hq hqm]
    refine ite_stretch_append (by omega) (fun _ _ _ => rfl) fun hkind hle hlt => ?_
    subst hkind
    have hindex : offset + l + (b.toNat - mid.toNat) = offset + (b.toNat - start.toNat) := by omega
    rw [hfirst.eq_of_write, hindex]

end Machine.CopiedFlat

end Buffers

/-! ## All reachable systems -/

namespace System

variable {s s' : System} {loose : List FrameNumber} {broken : List ProcessId}
  {spared : UserProcess → Prop} {p : UserProcess} {k : Nat} {o : Outcome}

/-- The last move was the step of a call of `p` that asked for the page, and this failed with `e`. -/
def FailedAt (s' : System) (p : UserProcess) (page : PageNumber) (kind : AccessKind)
    (e : VmError) : Prop :=
  ∃ (s : System) (i : Nat) (c : Call) (m₁ : Machine), s.calls[i]? = some c ∧ c.process = p ∧
    s' = s.after (.step i) ∧ c.Ready s.machine m₁ ∧
    (Action.resolve p page kind).run m₁ = .error (.error e) s'.machine

/-- Address spaces end where addresses end. -/
theorem Reachable.numPages_le {config : Config} {swap : Swap} {m : Machine}
    (h : Reachable HasRoom (ofMachine m) s) (hboot : Machine.boot config swap = .ok m) :
    ∀ p ∈ s.processes, p.numPages ≤ maxProcessPages := by
  refine h.invariant_of_sound (P := fun t => ∀ p ∈ t.processes, p.numPages ≤ maxProcessPages)
    (sound_boot hboot) (fun _ hp => absurd hp List.not_mem_nil)
    fun t mv loose broken ht hroom hmax p hp => ?_
  cases turn ht hroom with
  | went processes torn orderly => exact hmax p (processes ▸ hp)
  | tore processes mem torn orderly cleared => exact hmax p (processes ▸ hp)
  | joined processes torn machine pid index room layout table =>
    rw [processes] at hp
    cases List.mem_append.mp hp with
    | inl hold => exact hmax p hold
    | inr hnew =>
      rw [List.mem_singleton.mp hnew]
      exact (Layout.ofSections_spec layout).2.1

section Access

variable {config : Config} {swap : Swap} {m : Machine} (hboot : Machine.boot config swap = .ok m)
  (hs : Reachable HasRoom (ofMachine m) s) (hk : s.processes[k]? = some p)
  (hp : s.machine.Registered p) (hspared : spared p) {start : VirtualAddress} {buffer : Bytes}
  {offset length : Nat} {kind : AccessKind} (hfits : offset + length ≤ buffer.length)
include hboot hs hk hp hspared hfits

/-- A copy that returns is flat and has come to the end of the range or of the address space. -/
theorem Serves.returned {a : Answer}
    (h : Serves spared s k (.access start buffer offset length kind) (.returned a) s') :
    ∃ copy, a = .copied copy ∧ copy.done = min length (p.numPages * pageSize - start.toNat) ∧
      s.machine.CopiedFlat s'.machine spared p start buffer (copy.fill buffer offset) offset
        copy.done kind := by
  obtain ⟨loose, broken, hsound⟩ := hs.sound (sound_boot hboot)
  have hmax := hs.numPages_le hboot p (List.mem_of_getElem? hk)
  obtain ⟨hfresh, hzero⟩ :=
    Copy.reaches_ofAccess p s.machine (fun _ => True) start buffer offset length kind
  obtain ⟨copy, rfl, hdone, hreach, hover⟩ := (serves_iff_amid.mp h).returned
    (preserves_sparing spared _) hsound hk hp hmax hspared (Request.copies_access ..) hfresh hzero
  rw [Copy.reach, Copy.length_ofAccess hfits, Copy.start_ofAccess] at hdone
  exact ⟨copy, rfl, hdone, .of_reaches hfits hmax hreach hover⟩

/-- A copy that fails is flat up to the first page that could not be had. -/
theorem Serves.failed {e : VmError} {copied : Option Copy}
    (h : Serves spared s k (.access start buffer offset length kind) (.failed e copied) s') :
    ∃ copy a, copied = some copy ∧ start.add? copy.done = some a ∧
      (copy.done = 0 ∨ a.offset = .zero) ∧
      copy.done < min length (p.numPages * pageSize - start.toNat) ∧
      s'.FailedAt p a.page kind e ∧
      s.machine.CopiedFlat s'.machine spared p start buffer (copy.fill buffer offset) offset
        copy.done kind := by
  obtain ⟨loose, broken, hsound⟩ := hs.sound (sound_boot hboot)
  have hmax := hs.numPages_le hboot p (List.mem_of_getElem? hk)
  obtain ⟨hfresh, hzero⟩ :=
    Copy.reaches_ofAccess p s.machine (fun _ => True) start buffer offset length kind
  obtain ⟨t, j, loose', broken', c, ht, hc, hcarries, hstep, rfl⟩ := (serves_iff_amid.mp h).carries
    (preserves_sparing spared _) hsound hk hp hspared (Request.copies_access ..) hfresh hzero
  obtain ⟨hmem, hv, hr⟩ := ht.calls c (List.mem_of_getElem? hc)
  have hprocess : c.process = p := by
    obtain ⟨_, hcopies, -⟩ := hcarries
    exact hcopies.process
  obtain ⟨copy, piece, m₁, rfl, hturn, hready, hrun, hreach, hover⟩ :=
    hcarries.failed hspared hp ht.machine hmem hv hr
      (fun f hf => mem_pins_of_call (List.mem_of_getElem? hc) hf) hstep
  rw [← machine_after_step hc] at hover hrun
  obtain ⟨a, ha, hpage, -, haligned, hlt, -⟩ := hreach.next hturn
  rw [Copy.start_ofAccess] at ha
  rw [Copy.reach, Copy.length_ofAccess hfits, Copy.start_ofAccess] at hlt
  rw [hpage, hreach.kind, Copy.kind_ofAccess] at hrun
  refine ⟨copy, a, rfl, ha, haligned.imp_right fun hzero => ?_, hlt,
    ⟨t, j, c, m₁, hc, hprocess, rfl, hready, hrun⟩, .of_reaches hfits hmax hreach hover⟩
  cases hoffset : a.offset
  rw [hoffset] at hzero
  cases hzero
  rfl

/-- **Copies are flat.** In every system that moves lead to from a machine that has just started, let
a process that lives copy between its memory and a part of a buffer, while other calls run that spare
it. If the call returns, all bytes of the range are copied that lie in the address space, even where
it ends with the last address. A read puts what the process found at these addresses into the buffer,
and a write changes memory there, and nothing else changes: neither in the rest of the buffer nor in
what the spared processes find. If the call fails, it failed at the first byte of the range or of a
page, and what lies in front of this byte was copied in the same way. A copy that is made in two
parts gives the same bytes and the same number of them as one that is made at once. -/
theorem copies_are_flat :
    Call.access p start buffer offset length kind =
      .ok ((Request.access start buffer offset length kind).toCall p) ∧
    (∀ a s', Serves spared s k (.access start buffer offset length kind) (.returned a) s' →
      ∃ copy, a = .copied copy ∧ copy.done = min length (p.numPages * pageSize - start.toNat) ∧
        s.machine.CopiedFlat s'.machine spared p start buffer (copy.fill buffer offset) offset
          copy.done kind) ∧
    (∀ e copied s',
      Serves spared s k (.access start buffer offset length kind) (.failed e copied) s' →
      ∃ copy a, copied = some copy ∧ start.add? copy.done = some a ∧
        (copy.done = 0 ∨ a.offset = .zero) ∧
        copy.done < min length (p.numPages * pageSize - start.toNat) ∧
        s'.FailedAt p a.page kind e ∧
        s.machine.CopiedFlat s'.machine spared p start buffer (copy.fill buffer offset) offset
          copy.done kind) ∧
    ∀ (l : Nat) (mid : VirtualAddress) (whole first second : Copy) (s' s₁ s₂ : System) (k₁ : Nat),
      l ≤ length → start.add? l = some mid → s₁.processes[k₁]? = some p →
      Serves spared s k (.access start buffer offset length kind) (.returned (.copied whole)) s' →
      Serves spared s k (.access start buffer offset l kind) (.returned (.copied first)) s₁ →
      Serves spared s₁ k₁ (.access mid (first.fill buffer offset) (offset + l) (length - l) kind)
        (.returned (.copied second)) s₂ →
      first.done + second.done = whole.done ∧
      second.fill (first.fill buffer offset) (offset + l) = whole.fill buffer offset ∧
      ∀ q, spared q → s.machine.Registered q → ∀ b,
        s₂.machine.byte? q b = s'.machine.byte? q b := by
  refine ⟨Call.access_eq_ok hfits p start kind,
    fun a s' h => h.returned hboot hs hk hp hspared hfits,
    fun e copied s' h => h.failed hboot hs hk hp hspared hfits, ?_⟩
  intro l mid whole first second s' s₁ s₂ k₁ hl hmid hk₁ hwhole hfirst hsecond
  have htoNat := VirtualAddress.toNat_of_add? hmid
  obtain ⟨_, heq, hdone, hflat⟩ := hwhole.returned hboot hs hk hp hspared hfits
  cases heq
  obtain ⟨_, heq, hdone₁, hflat₁⟩ := hfirst.returned hboot hs hk hp hspared (by omega)
  cases heq
  have hp₁ := hflat₁.registered p hspared hp
  have hs₁ : Reachable HasRoom (ofMachine m) s₁ :=
    (completes_iff_amid.mp hfirst).reachable (fun _ _ h => h.1) (hs.move _ trivial)
  obtain ⟨_, heq, hdone₂, hflat₂⟩ := hsecond.returned hboot hs₁ hk₁ hp₁ hspared (by
    rw [hflat₁.length]
    omega)
  cases heq
  have hcount : first.done + second.done = whole.done := by omega
  rw [← hcount] at hflat
  exact ⟨hcount, hflat.append hflat₁ hflat₂ hmid (by omega) (by omega) hspared hp⟩

end Access

/-- A system with one frame and a process of three pages. -/
def settled : System :=
  (ofMachine (fresh 1)).run [.spawn (.zeroes "first" 1) [] .demand, .step 0]

set_option maxRecDepth 20000 in
/-- Four bytes of a buffer are written across the end of the first page, which has to make room for
the second. -/
theorem copies_are_flat_settled : ∃ p copy s', settled.machine.Registered p ∧
    Serves (fun _ => True) settled 0 (.access ⟨1022⟩ [5, 6, 7, 8, 9, 10] 1 4 .write)
      (.returned (.copied copy)) s' ∧
    copy.done = 4 ∧ s'.machine.byte? p ⟨1023⟩ = some 7 ∧ s'.machine.byte? p ⟨1024⟩ = some 8 := by
  have hreach : Reachable HasRoom (ofMachine (fresh 1)) settled := Reachable.start.run (by decide)
  let p := settled.processes.head (List.cons_ne_nil _ _)
  obtain ⟨s', hserves⟩ : ∃ s', Serves (fun _ => True) settled 0
      (.access ⟨1022⟩ [5, 6, 7, 8, 9, 10] 1 4 .write)
      (.returned (.copied ⟨.write, ⟨1022⟩, 4, 4, [], []⟩)) s' :=
    ⟨_, .steps rfl (.steps rfl (.steps rfl (.steps rfl (.steps rfl (.steps rfl (.ends rfl))))))⟩
  obtain ⟨-, hreturned, -, -⟩ := @copies_are_flat settled (fun _ => True) p 0 ⟨1, 1, true⟩
    (.empty none) (fresh 1) rfl hreach rfl rfl trivial ⟨1022⟩ [5, 6, 7, 8, 9, 10] 1 4 .write
    (by decide)
  obtain ⟨copy, heq, -, hflat⟩ := hreturned _ _ hserves
  cases heq
  have hmemory := hflat.memory p trivial rfl
  exact ⟨p, _, s', rfl, hserves, rfl, hmemory ⟨1023⟩, hmemory ⟨1024⟩⟩

end System

end DemandPaging
