import DemandPaging.Kernel.Spawn
import DemandPaging.Proofs.Population

/-!
# New processes

A layout that is accepted fits the 32-bit addresses, so its page table can be made and its stack has
a top. Hence the registration of a process never fails, and an identity is drawn only for a process
that comes to be.
-/

namespace DemandPaging

/-! ## Accepted layouts -/

namespace Layout

/-- The first of the sections is placed at page `next`, and the others behind it. -/
theorem place_cons_eq_ok {s : Section} {rest : List Section} {index next stop : Nat}
    {ranges : List PageRange} : place (s :: rest) index next = .ok (ranges, stop) ↔
      s.first.toNat = next ∧ next + s.pages < sizeBound ∧
      ∃ rs, ranges = ⟨next, s.pages⟩ :: rs ∧
        place rest (index + 1) (next + s.pages) = .ok (rs, stop) := by
  rw [place]
  constructor
  · intro h
    split at h
    · contradiction
    · next hfirst =>
      split at h
      · contradiction
      · next hfits =>
        cases hrest : place rest (index + 1) (next + s.pages) with
        | error e =>
          rw [hrest] at h
          contradiction
        | ok placed =>
          rw [hrest] at h
          cases h
          exact ⟨Decidable.not_not.mp hfirst, Nat.not_le.mp hfits, placed.1, rfl, rfl⟩
  · rintro ⟨hfirst, hfits, rs, rfl, hrest⟩
    rw [if_neg (not_not_intro hfirst), if_neg (Nat.not_le.mpr hfits), hrest]
    rfl

/-- Sections are placed between the page where they start and the page after the last one. -/
theorem stop_le_of_place {sections : List Section} {index next stop : Nat}
    {ranges : List PageRange} (h : place sections index next = .ok (ranges, stop)) :
    next ≤ stop ∧ ∀ r ∈ ranges, r.stop ≤ stop := by
  induction sections generalizing index next ranges with
  | nil =>
    cases h
    exact ⟨Nat.le_refl _, fun r hr => absurd hr List.not_mem_nil⟩
  | cons s rest ih =>
    obtain ⟨-, -, rs, rfl, hrest⟩ := place_cons_eq_ok.mp h
    obtain ⟨hle, hall⟩ := ih hrest
    refine ⟨Nat.le_trans (Nat.le_add_right ..) hle, fun r hr => ?_⟩
    cases List.mem_cons.mp hr with
    | inl heq =>
      rw [heq]
      exact hle
    | inr hmem => exact hall r hmem

/-- What is accepted: the sections are placed, and stack and arguments lie behind them. -/
theorem place_of_ofSections {sections : List Section} {stackPages : Nat} {l : Layout}
    (h : ofSections sections stackPages = .ok l) :
    place sections 0 0 = .ok (l.ranges, l.codePages) ∧
      l.numPages = l.codePages + stackPages + argumentPages ∧ l.numPages ≤ maxProcessPages := by
  unfold ofSections at h
  cases hplace : place sections 0 0 with
  | error e =>
    rw [hplace] at h
    contradiction
  | ok placed =>
    rw [hplace] at h
    simp only [bind, Except.bind] at h
    split at h
    · contradiction
    · split at h
      · contradiction
      · next hmax =>
        cases h
        exact ⟨rfl, rfl, Nat.not_lt.mp hmax⟩

/-- The sections of an accepted layout lie below its last page, and the pages fit the addresses. -/
theorem ofSections_spec {sections : List Section} {stackPages : Nat} {l : Layout}
    (h : ofSections sections stackPages = .ok l) :
    0 < l.numPages ∧ l.numPages ≤ maxProcessPages ∧ ∀ r ∈ l.ranges, r.stop < l.numPages := by
  obtain ⟨hplace, hpages, hmax⟩ := place_of_ofSections h
  have hlast : l.codePages < l.numPages := by
    simp only [hpages, argumentPages]
    omega
  exact ⟨Nat.zero_lt_of_lt hlast, hmax, fun r hr =>
    Nat.lt_of_le_of_lt ((stop_le_of_place hplace).2 r hr) hlast⟩

/-- The pages of a section are pages of the address space. -/
theorem lt_of_mem_sectionPages {l : Layout} (hmax : l.numPages ≤ maxProcessPages)
    (hranges : ∀ r ∈ l.ranges, r.stop < l.numPages) {index : Nat} {page : PageNumber}
    (h : page ∈ l.sectionPages index) : page.toNat < l.numPages := by
  unfold sectionPages at h
  cases hr : l.ranges[index]? with
  | none =>
    rw [hr] at h
    exact absurd h List.not_mem_nil
  | some r =>
    rw [hr] at h
    obtain ⟨n, hn, rfl⟩ := List.mem_map.mp h
    have hstop := hranges r (List.mem_of_getElem? hr)
    have hn' := (List.mem_range'_1.mp hn).2
    have hword : maxProcessPages < wordBound := by decide
    rw [PageRange.stop] at hstop
    rw [PageNumber.toNat_ofNat (by omega)]
    omega

/-- The stack of an accepted layout has a top. -/
theorem exists_stackTop {l : Layout} (hpos : 0 < l.numPages) (hmax : l.numPages ≤ maxProcessPages) :
    ∃ a, l.stackTop? = some a := by
  have hword : maxProcessPages < wordBound := by decide
  have hpage : l.argumentPage.toNat = l.numPages - argumentPages :=
    PageNumber.toNat_ofNat (by omega)
  have hle : l.argumentPage.val ≤ 0x3FFFFF := by
    rw [UInt32.le_iff_toNat_le]
    change l.argumentPage.toNat ≤ 0x3FFFFF
    rw [hpage]
    simp only [argumentPages, maxProcessPages] at *
    omega
  rw [stackTop?, PageNumber.base?, if_pos hle]
  exact ⟨_, rfl⟩

end Layout

namespace UserProcess

/-- Pages of the address space can be marked, and marks bring no page into a frame. -/
theorem markReadOnly_spec (pages : List PageNumber) (t : PageTable)
    (hpages : ∀ page ∈ pages, page.toNat < t.size)
    (ht : ∀ page e, t.get? page = some e → e.frame? = none) :
    ∃ t', markReadOnly pages t = .ok t' ∧ t'.size = t.size ∧
      ∀ page e, t'.get? page = some e → e.frame? = none := by
  induction pages generalizing t with
  | nil => exact ⟨t, rfl, rfl, ht⟩
  | cons page pages ih =>
    have hlt := hpages page List.mem_cons_self
    have he : t.get? page = some t.entries[page.toNat] := Array.getElem?_eq_getElem hlt
    have hset : t.setReadOnly page true =
        .ok (t.setEntry page (t.entries[page.toNat].put .readOnly true)) := by
      rw [PageTable.setReadOnly, he]
    obtain ⟨t', ht', hsize, hall⟩ := ih (t.setEntry page (t.entries[page.toNat].put .readOnly true))
      (fun q hq => by
        rw [PageTable.size_setEntry]
        exact hpages q (List.mem_cons_of_mem _ hq))
      (fun q e hq => by
        rw [PageTable.get?_setEntry, he, Option.map_some] at hq
        split at hq
        · rw [Option.some.injEq] at hq
          rw [← hq, PageEntry.frame?_put EntryFlag.noConfusion]
          exact ht page _ he
        · exact ht q e hq)
    refine ⟨t', ?_, hsize.trans (PageTable.size_setEntry ..), hall⟩
    rw [markReadOnly, hset]
    exact ht'

/-- The page table of a new process can be made, and no page is in a frame. -/
theorem initialTable_spec {sections : List Section} {stackPages : Nat} {layout : Layout}
    (image : Executable) (h : Layout.ofSections sections stackPages = .ok layout) :
    ∃ t, initialTable image layout = .ok t ∧ t.size ≤ wordBound ∧
      ∀ page e, t.get? page = some e → e.frame? = none := by
  obtain ⟨-, hmax, hranges⟩ := Layout.ofSections_spec h
  have hsize : (PageTable.ofPages layout.numPages).size = layout.numPages := Array.size_replicate
  have hword : maxProcessPages ≤ wordBound := by decide
  have hpages : ∀ page ∈ (readOnlySections image).flatMap layout.sectionPages,
      page.toNat < (PageTable.ofPages layout.numPages).size := by
    intro page hpage
    obtain ⟨index, -, hmem⟩ := List.mem_flatMap.mp hpage
    rw [hsize]
    exact Layout.lt_of_mem_sectionPages hmax hranges hmem
  have habsent : ∀ page e, (PageTable.ofPages layout.numPages).get? page = some e →
      e.frame? = none := by
    intro page e he
    rw [PageTable.get?_ofPages] at he
    split at he
    · rw [Option.some.injEq] at he
      rw [← he, PageEntry.frame?_empty]
    · contradiction
  obtain ⟨t, ht, htsize, hall⟩ := markReadOnly_spec _ _ hpages habsent
  exact ⟨t, ht, by omega, hall⟩

end UserProcess

/-- What comes of arguments that do not fit: their size is reported, if that is a byte count. -/
def ArgumentBlock.overlong (args : List Bytes) : Stop VmError :=
  if size args < sizeBound then .error (.argumentsTooLong (size args)) else .violation .overflow

namespace ArgumentBlock

variable {args : List Bytes}

theorem overlong_of_lt (h : size args < sizeBound) :
    overlong args = .error (.argumentsTooLong (size args)) := if_pos h

theorem overlong_of_le (h : sizeBound ≤ size args) : overlong args = .violation .overflow :=
  if_neg (Nat.not_lt.mpr h)

theorem eq_of_overlong {e : VmError} (h : overlong args = .error e) :
    e = .argumentsTooLong (size args) := by
  rcases Nat.lt_or_ge (size args) sizeBound with hcount | hmany
  · exact Stop.error.inj (h.symm.trans (overlong_of_lt hcount))
  · cases h.symm.trans (overlong_of_le hmany)

end ArgumentBlock

namespace Action

open Machine

/-- Why no process is created: there is no layout for the executable, or the arguments are too
long. -/
def Refused (m : Machine) (image : Executable) (args : List Bytes) (stop : Stop VmError) : Prop :=
  Layout.ofSections image.sections m.kernel.config.stackPages = .error stop ∨
    (∃ layout, Layout.ofSections image.sections m.kernel.config.stackPages = .ok layout) ∧
      maxArgumentBytes < ArgumentBlock.size args ∧ stop = ArgumentBlock.overlong args

/-- A machine that refuses to create a process stays as it is. -/
theorem run_spawn_of_refused {m : Machine} {image : Executable} {args : List Bytes}
    {stop : Stop VmError} (h : Refused m image args stop) (mode : PagingMode) :
    (spawn image args mode).run m = .error stop m := by
  rcases h with hlayout | ⟨⟨layout, hlayout⟩, hargs, rfl⟩
  · simp only [spawn, EStateM.run_bind, EStateM.run_get, hlayout]
    rfl
  · rcases Nat.lt_or_ge (ArgumentBlock.size args) sizeBound with hcount | hmany
    · simp only [spawn, EStateM.run_bind, EStateM.run_get, hlayout, ArgumentBlock.size?_of_lt hcount,
        hargs, if_true, run_fail, ArgumentBlock.overlong_of_lt hcount]
    · simp only [spawn, EStateM.run_bind, EStateM.run_get, hlayout, ArgumentBlock.size?_of_le hmany,
        run_violate, ArgumentBlock.overlong_of_le hmany]

/-- How the creation of a process can begin. -/
inductive Birth (m : Machine) (image : Executable) (args : List Bytes) (mode : PagingMode) :
    EStateM.Result (Stop VmError) Machine Call → Prop
  /-- The process is registered, and the call that loads it is about to start. -/
  | begun {p : UserProcess} {t : PageTable}
      (pid : p.pid = m.kernel.nextPid) (index : p.table.index = m.tables.size)
      (himage : p.image = image) (fits : t.size ≤ wordBound)
      (absent : ∀ page e, t.get? page = some e → e.frame? = none)
      (layout : Layout.ofSections image.sections m.kernel.config.stackPages = .ok p.layout)
      (table : UserProcess.initialTable image p.layout = .ok t)
      (argv : p.layout.stackTop? = some p.argv) (argc : p.argc = args.length)
      (size : ArgumentBlock.size args ≤ maxArgumentBytes) :
      Birth m image args mode (.ok ⟨p, .spawn,
        .load mode :: (ArgumentBlock.steps p.argv args).map ArgumentStep.toTask, .seeking⟩
        (m.joined p t))
  /-- The executable or the arguments are refused. -/
  | refused {stop : Stop VmError} (cause : Refused m image args stop) :
      Birth m image args mode (.error stop m)

/-- **What the creation of a process begins with.** Nothing happens to a machine that refuses it. -/
theorem spawn_spec (m : Machine) (image : Executable) (args : List Bytes) (mode : PagingMode) :
    Birth m image args mode ((spawn image args mode).run m) := by
  cases hlayout : Layout.ofSections image.sections m.kernel.config.stackPages with
  | error stop =>
    have hrefused : Refused m image args stop := Or.inl hlayout
    rw [run_spawn_of_refused hrefused]
    exact .refused hrefused
  | ok layout =>
    by_cases hargs : maxArgumentBytes < ArgumentBlock.size args
    · have hrefused : Refused m image args (ArgumentBlock.overlong args) :=
        Or.inr ⟨⟨layout, hlayout⟩, hargs, rfl⟩
      rw [run_spawn_of_refused hrefused]
      exact .refused hrefused
    · obtain ⟨t, ht, hfits, habsent⟩ := UserProcess.initialTable_spec image hlayout
      obtain ⟨hpos, hmax, -⟩ := Layout.ofSections_spec hlayout
      obtain ⟨argv, hargv⟩ := Layout.exists_stackTop hpos hmax
      let p : UserProcess :=
        ⟨m.kernel.nextPid, image, layout, mode, args.length, argv, ⟨m.tables.size⟩⟩
      have hregister : (register image layout mode args.length).run m = .ok p (m.joined p t) := by
        simp only [register, drawPid, EStateM.run_bind, EStateM.run_get, EStateM.run_set, ht, hargv,
          EStateM.run_pure]
        rfl
      have hcount : ArgumentBlock.size args < sizeBound :=
        Nat.lt_of_le_of_lt (Nat.not_lt.mp hargs) (by decide)
      simp only [spawn, EStateM.run_bind, EStateM.run_get, hlayout, ArgumentBlock.size?_of_lt hcount,
        hargs, if_false, hregister, EStateM.run_pure]
      exact .begun rfl rfl rfl hfits habsent hlayout ht hargv rfl (Nat.not_lt.mp hargs)

end Action

end DemandPaging
