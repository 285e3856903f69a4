import DemandPaging.Proofs.Invariant

/-!
# Paging is invisible

Whatever moves are made, and in whatever order calls go forward, sleep and wake, a page of a process
that lives has the content it had before, wherever it lies by then. Only the copy of a piece of a
write changes a page: the one it is aimed at, and there only the bytes of the piece.
-/

namespace DemandPaging

open Machine

/-- A byte of a string after a write is the byte written there, or the byte that was there before. -/
theorem Bytes.getElem?_overwrite {dst src : Bytes} {start : Nat}
    (h : start + src.length ≤ dst.length) (k : Nat) :
    (dst.overwrite start src)[k]? =
      if start ≤ k ∧ k < start + src.length then src[k - start]? else dst[k]? := by
  have htake : (dst.take start).length = start := by
    rw [List.length_take]
    omega
  simp only [overwrite, List.append_assoc]
  by_cases hbefore : k < start
  · rw [if_neg (by omega), List.getElem?_append_left (by omega), List.getElem?_take_of_lt hbefore]
  · rw [List.getElem?_append_right (by omega), htake]
    by_cases hin : k < start + src.length
    · rw [if_pos (by omega), List.getElem?_append_left (by omega)]
    · rw [if_neg (by omega), List.getElem?_append_right (by omega), List.getElem?_drop]
      congr 1
      omega

/-- A byte of a page after a write is the byte written there, or the byte that was there before. -/
theorem Page.getElem?_write? {old new : Page} {start : Nat} {src : Bytes}
    (h : old.write? start src = some new) (k : Nat) :
    new.bytes[k]? = if start ≤ k ∧ k < start + src.length then src[k - start]?
      else old.bytes[k]? := by
  unfold write? at h
  split at h
  · next hfits =>
    cases h
    exact Bytes.getElem?_overwrite (old.length_bytes.symm ▸ hfits) k
  · contradiction

namespace System

/-- Only a step of a call that holds the page writes. -/
theorem writing?_eq_some {s : System} {mv : Move} {q : UserProcess} {page : PageNumber}
    {offset : Nat} {bytes : Bytes} : s.writing? mv = some (q, page, offset, bytes) ↔
      ∃ i c, mv = .step i ∧ s.calls[i]? = some c ∧ c.writing? = some (page, offset, bytes) ∧
        c.process = q := by
  cases mv with
  | step i =>
    simp only [writing?, Option.bind_eq_some_iff, Option.map_eq_some_iff, Prod.mk.injEq,
      Move.step.injEq]
    constructor
    · rintro ⟨c, hc, w, hw, rfl, rfl⟩
      exact ⟨i, c, rfl, hc, hw, rfl⟩
    · rintro ⟨j, c, rfl, hc, hw, rfl⟩
      exact ⟨c, hc, _, hw, rfl, rfl⟩
  | _ => simp [writing?]

/-- A move that writes to a page of a process that lives puts the bytes in place. -/
theorem exists_written {s : System} {loose : List FrameNumber} {broken : List ProcessId} {mv : Move}
    (hs : s.Sound loose broken) {p q : UserProcess} (hp : s.machine.Registered p) {page : PageNumber}
    {offset : Nat} {bytes : Bytes} (hw : s.writing? mv = some (q, page, offset, bytes))
    (hqp : q.pid = p.pid) :
    ∃ old new, s.machine.content? p page = some old ∧
      (s.after mv).machine.content? p page = some new ∧
      ∀ k, new.bytes[k]? = if offset ≤ k ∧ k < offset + bytes.length then bytes[k - offset]?
        else old.bytes[k]? := by
  obtain ⟨i, c, rfl, hc, hwriting, rfl⟩ := writing?_eq_some.mp hw
  have hcensus := hs.machine.census
  have hq := (hs.calls c (List.mem_of_getElem? hc)).1
  obtain rfl : c.process = p := hcensus.eq_of_pid hq (hcensus.mem hp) hqp
  obtain ⟨old, new, hold, hwrite, hnew⟩ := (stepped hs hc).written hp hwriting
  refine ⟨old, new, hold, ?_, Page.getElem?_write? hwrite⟩
  rw [machine_after_step hc]
  exact hnew

/-- **Paging is invisible.** In every system that moves lead to from a machine that has just
started, a further move leaves the content of a page as it is. If it copies a piece of a write to
that very page, the bytes of the piece are in place, and all other bytes are as they were. -/
theorem content?_after {config : Config} {swap : Swap} {m : Machine}
    (hboot : Machine.boot config swap = .ok m) {s : System}
    (hs : Reachable HasRoom (ofMachine m) s) {mv : Move} (hmv : s.HasRoom mv) {p : UserProcess}
    (hp : s.machine.Registered p) (hp' : (s.after mv).machine.Registered p) (page : PageNumber) :
    (s.target? mv ≠ some (p.pid, page) →
      (s.after mv).machine.content? p page = s.machine.content? p page) ∧
    ∀ q offset bytes, s.writing? mv = some (q, page, offset, bytes) → q.pid = p.pid →
      ∃ old new, s.machine.content? p page = some old ∧
        (s.after mv).machine.content? p page = some new ∧
        ∀ k, new.bytes[k]? = if offset ≤ k ∧ k < offset + bytes.length then bytes[k - offset]?
          else old.bytes[k]? := by
  obtain ⟨broken, hh⟩ := hs.history
  obtain ⟨loose, hsound⟩ := hh.sound hboot fun _ _ ha => ha
  have hmoved := moved hsound hmv
  have hgone : s.torn? mv ≠ some p.pid := fun hgone => hmoved.spares.left p hgone hp'
  exact ⟨fun htarget => hmoved.spares.content p page hp hgone htarget,
    fun q offset bytes hw hqp => exists_written hsound hp hw hqp⟩

/-- A system with one frame, in which a process is about to write a byte to its first page. -/
def aboutToWrite : System := (ofMachine (fresh 1)).run
  [.spawn (.zeroes "first" 1) [] .demand, .step 0, .request 0 (.write .zero [7]), .step 0]

/-- The step that copies the byte puts it in place and leaves the rest of the page as it was. -/
theorem content?_after_aboutToWrite :
    ∃ p, aboutToWrite.machine.Registered p ∧ ∃ old new,
      aboutToWrite.machine.content? p ⟨0⟩ = some old ∧
        (aboutToWrite.after (.step 0)).machine.content? p ⟨0⟩ = some new ∧
        ∀ k, new.bytes[k]? = if 0 ≤ k ∧ k < 0 + 1 then ([7] : Bytes)[k - 0]?
          else old.bytes[k]? := by
  have hreach : Reachable HasRoom (ofMachine (fresh 1)) aboutToWrite :=
    Reachable.start.run (by decide)
  let p := aboutToWrite.processes.head (List.cons_ne_nil _ _)
  have hafter := @content?_after ⟨1, 1, true⟩ (.empty none) (fresh 1) rfl aboutToWrite hreach
    (.step 0) trivial p rfl rfl ⟨0⟩
  exact ⟨p, rfl, hafter.2 p 0 [7] rfl rfl⟩

end System

end DemandPaging
