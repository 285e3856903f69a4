import DemandPaging.Proofs.Changes

/-!
# Orderly changes

What faults, copies and teardowns do to a machine goes in one direction. A page becomes dirty only by
a write to it, and only dirty pages of processes that live are copied to swap. A frame is given only
to a process that lives, and the pages of a process that does not live are no longer moved: each
keeps its frame or loses it. The read-only bits of pages never change. `Machine.Orderly` says all
this of two machines, of which the second comes later, and the elementary changes are orderly one by
one.
-/

namespace DemandPaging

namespace Machine

/-- The process that owns a frame and the page that lies there, as the directory has them. -/
def ownerOf? (m : Machine) (f : FrameNumber) : Option (ProcessId × PageNumber) :=
  (m.frameInfo? f).bind fun i => i.owner.map fun pid => (pid, i.page)

/-- The read-only bit of a page of the address space. -/
def readOnly? (m : Machine) (p : UserProcess) (page : PageNumber) : Option Bool :=
  (m.entryOf? p page).map PageEntry.readOnly

/-- The page is resident and was written to since it was brought in. -/
def Dirty (m : Machine) (p : UserProcess) (page : PageNumber) : Prop :=
  ∃ e, m.entryOf? p page = some e ∧ e.dirty = true

/-- From `m` to `m'` nothing happened to the processes `ps` but what faults, copies and the return of
frames do, and no page but `target` was written to. -/
structure Orderly (m m' : Machine) (ps : List UserProcess)
    (target : Option (ProcessId × PageNumber)) : Prop where
  registry : ∀ pid : ProcessId, m'.process? pid = m.process? pid
  size : m'.kernel.frames.directory.size = m.kernel.frames.directory.size
  readOnly : ∀ p ∈ ps, ∀ page, m'.readOnly? p page = m.readOnly? p page
  dirty : ∀ p ∈ ps, ∀ page, m'.Dirty p page → m.Dirty p page ∨ target = some (p.pid, page)
  copies : ∀ key, m'.kernel.swap.copy? key ≠ none → m.kernel.swap.copy? key ≠ none ∨
    ∃ p, m.Registered p ∧ p.pid = key.1 ∧ m.Dirty p key.2
  owners : ∀ f pid page, m'.ownerOf? f = some (pid, page) →
    m.ownerOf? f = some (pid, page) ∨ m.process? pid ≠ none
  stays : ∀ p ∈ ps, m.process? p.pid = none → ∀ page f, (m'.table p).translate? page = some f →
    (m.table p).translate? page = some f ∧
      (m.ownerOf? f = some (p.pid, page) → m'.ownerOf? f = some (p.pid, page))

variable {m m' m'' : Machine} {l : Ledger} {ps : List UserProcess} {p q : UserProcess}
  {f : FrameNumber} {i j : FrameInfo ProcessId} {page : PageNumber} {e e' : PageEntry}
  {target : Option (ProcessId × PageNumber)}

/-! ## Owners of frames -/

theorem ownerOf?_eq_some {pid : ProcessId} : m.ownerOf? f = some (pid, page) ↔
    ∃ i, m.frameInfo? f = some i ∧ i.owner = some pid ∧ i.page = page := by
  simp only [ownerOf?, Option.bind_eq_some_iff, Option.map_eq_some_iff, Prod.mk.injEq]
  constructor
  · rintro ⟨i, hi, pid', howner, rfl, rfl⟩
    exact ⟨i, hi, howner, rfl⟩
  · rintro ⟨i, hi, howner, rfl⟩
    exact ⟨i, hi, pid, howner, rfl, rfl⟩

theorem ownerOf?_of_info (hi : m.frameInfo? f = some i) :
    m.ownerOf? f = i.owner.map fun pid => (pid, i.page) := by
  rw [ownerOf?, hi, Option.bind_some]

/-- A mark makes no difference to the owner. -/
theorem Alike.ownerOf? (h : Alike m m') (f : FrameNumber) : m'.ownerOf? f = m.ownerOf? f := by
  cases hi : m.frameInfo? f with
  | none =>
    have hmarks := h.marks.2 f
    have hi' : m.kernel.frames.directory.get? f = none := hi
    rw [hi', Option.map_none, eq_comm, Option.map_eq_none_iff] at hmarks
    have hi'' : m'.frameInfo? f = none := hmarks
    rw [Machine.ownerOf?, Machine.ownerOf?, hi, hi'']
  | some i =>
    obtain ⟨j, hj, howner, hpage, -⟩ := h.frameInfo? hi
    rw [ownerOf?_of_info hi, ownerOf?_of_info hj, howner, hpage]

/-- Who owns which frame when the record of one of them is new. -/
theorem ownerOf?_withFrames {t : FrameTable ProcessId}
    (hinfo : ∀ g, t.info? g = if g = f then some j else m.frameInfo? g) (g : FrameNumber) :
    (m.withFrames t).ownerOf? g =
      if g = f then j.owner.map fun pid => (pid, j.page) else m.ownerOf? g := by
  rw [ownerOf?, frameInfo?, kernel_withFrames, hinfo]
  split
  · rw [Option.bind_some]
  · rfl

/-! ## One change after the other -/

namespace Orderly

theorem refl (m : Machine) (ps : List UserProcess) : Orderly m m ps none :=
  ⟨fun _ => rfl, rfl, fun _ _ _ => rfl, fun _ _ _ hd => Or.inl hd, fun _ hc => Or.inl hc,
    fun _ _ _ ho => Or.inl ho, fun _ _ _ _ _ ht => ⟨ht, fun ho => ho⟩⟩

theorem registered (h : Orderly m m' ps target) (p : UserProcess) :
    m'.Registered p ↔ m.Registered p := by
  rw [Registered, h.registry]
  rfl

/-- What is orderly without a write is orderly with one. -/
theorem with_target (h : Orderly m m' ps none) (target : Option (ProcessId × PageNumber)) :
    Orderly m m' ps target where
  registry := h.registry
  size := h.size
  readOnly := h.readOnly
  dirty p hp page hd := Or.inl ((h.dirty p hp page hd).resolve_right nofun)
  copies := h.copies
  owners := h.owners
  stays := h.stays

/-- A write may come last. -/
theorem trans (h : Orderly m m' ps none) (h' : Orderly m' m'' ps target)
    (hps : ∀ p, m.Registered p → p ∈ ps) : Orderly m m'' ps target where
  registry pid := (h'.registry pid).trans (h.registry pid)
  size := h'.size.trans h.size
  readOnly p hp page := (h'.readOnly p hp page).trans (h.readOnly p hp page)
  dirty p hp page hd :=
    (h'.dirty p hp page hd).imp_left fun hd' => (h.dirty p hp page hd').resolve_right nofun
  copies key hc := by
    rcases h'.copies key hc with hc' | ⟨p, hp, hpid, hd⟩
    · exact h.copies key hc'
    · have hreg := (h.registered p).mp hp
      exact Or.inr ⟨p, hreg, hpid, (h.dirty p (hps p hreg) _ hd).resolve_right nofun⟩
  owners f pid page ho := by
    rcases h'.owners f pid page ho with ho' | hp
    · exact h.owners f pid page ho'
    · exact Or.inr (h.registry pid ▸ hp)
  stays p hp hdead page f ht := by
    obtain ⟨ht', hown'⟩ := h'.stays p hp ((h.registry _).trans hdead) page f ht
    obtain ⟨ht'', hown⟩ := h.stays p hp hdead page f ht'
    exact ⟨ht'', fun ho => hown' (hown ho)⟩

theorem alike (h : Alike m m') (ps : List UserProcess) : Orderly m m' ps none where
  registry := h.process?
  size := h.marks.1.symm
  readOnly p _ page := by rw [Machine.readOnly?, Machine.readOnly?, h.entryOf?]
  dirty p _ page hd := by
    obtain ⟨e, he, hdirty⟩ := hd
    exact Or.inl ⟨e, (h.entryOf? p page) ▸ he, hdirty⟩
  copies key hc := Or.inl (h.copies key ▸ hc)
  owners f pid page ho := Or.inl (h.ownerOf? f ▸ ho)
  stays p _ _ page f ht := by
    rw [h.table] at ht
    exact ⟨ht, fun ho => (h.ownerOf? f).trans ho⟩

/-! ## Changes of the pool -/

/-- A record with the same owner and page. -/
theorem reinfo (hi : m.frameInfo? f = some i) {t : FrameTable ProcessId}
    (hsize : t.directory.size = m.kernel.frames.directory.size) (howner : j.owner = i.owner)
    (hpage : j.page = i.page)
    (hinfo : ∀ g, t.info? g = if g = f then some j else m.frameInfo? g) (ps : List UserProcess) :
    Orderly m (m.withFrames t) ps none := by
  have hsame : ∀ g, (m.withFrames t).ownerOf? g = m.ownerOf? g := by
    intro g
    rw [ownerOf?_withFrames hinfo]
    split
    · next hg => rw [hg, ownerOf?_of_info hi, howner, hpage]
    · rfl
  exact ⟨fun _ => rfl, hsize, fun _ _ _ => rfl, fun _ _ _ hd => Or.inl hd, fun _ hc => Or.inl hc,
    fun g _ _ ho => Or.inl (hsame g ▸ ho), fun _ _ _ _ g ht => ⟨ht, fun ho => (hsame g).trans ho⟩⟩

/-- A frame of a process that lives, or of nobody, goes to a process that lives, or becomes free. -/
theorem reowned (hi : m.frameInfo? f = some i) {t : FrameTable ProcessId}
    (hsize : t.directory.size = m.kernel.frames.directory.size)
    (hinfo : ∀ g, t.info? g = if g = f then some j else m.frameInfo? g)
    (hold : ∀ pid, i.owner = some pid → m.process? pid ≠ none)
    (hnew : ∀ pid, j.owner = some pid → m.process? pid ≠ none) (ps : List UserProcess) :
    Orderly m (m.withFrames t) ps none := by
  refine ⟨fun _ => rfl, hsize, fun _ _ _ => rfl, fun _ _ _ hd => Or.inl hd, fun _ hc => Or.inl hc,
    fun g pid page ho => ?_, fun p _ hdead page g ht => ⟨ht, fun ho => ?_⟩⟩
  · rw [ownerOf?_withFrames hinfo] at ho
    split at ho
    · obtain ⟨pid', hpid, heq⟩ := Option.map_eq_some_iff.mp ho
      exact Or.inr ((Prod.mk.inj heq).1 ▸ hnew pid' hpid)
    · exact Or.inl ho
  · rw [ownerOf?_withFrames hinfo]
    split
    · next hg =>
      obtain ⟨k, hk, howner, -⟩ := ownerOf?_eq_some.mp ho
      rw [hg, hi, Option.some.injEq] at hk
      exact absurd hdead (hold p.pid (hk ▸ howner))
    · exact ho

theorem addPin (hi : m.frameInfo? f = some i) (ps : List UserProcess) :
    Orderly m (m.withFrames (m.kernel.frames.withInfo f { i with pins := i.pins + 1 })) ps none :=
  .reinfo (j := { i with pins := i.pins + 1 }) hi (FrameTable.size_withInfo ..) rfl rfl
    (FrameTable.info?_withInfo hi _) ps

theorem dropPin (hi : m.frameInfo? f = some i) (ps : List UserProcess) :
    Orderly m (m.withFrames (m.kernel.frames.dropPin f i)) ps none :=
  .reinfo (j := { i with pins := i.pins - 1 }) hi (FrameTable.size_dropPin ..) rfl rfl
    (FrameTable.info?_dropPin hi) ps

/-- The top frame of the free list goes to a process that lives. -/
theorem handOut (h : m.Sound l) {fs : List FrameNumber}
    (hfree : m.kernel.frames.free.stack = f :: fs) (hp : m.Registered p) (page : PageNumber)
    (ps : List UserProcess) :
    Orderly m (m.withFrames (m.kernel.frames.handOut f p.pid page)) ps none := by
  obtain ⟨i, hi, hnone⟩ := (h.pool.mem_stack f).mp (by rw [hfree]; exact List.mem_cons_self)
  refine .reowned (j := ⟨some p.pid, page, 1, false⟩) hi (FrameTable.size_handOut ..)
    (FrameTable.info?_handOut hi p.pid page) (fun pid ho => ?_) (fun pid ho => ?_) ps
  · rw [hnone] at ho
    contradiction
  · have hreg : m.process? p.pid = some p := hp
    rw [← Option.some.inj ho, hreg]
    exact Option.some_ne_none p

/-- A frame that was reserved for a process that lives becomes free. -/
theorem giveBack (hi : m.frameInfo? f = some i) (howner : i.owner = some p.pid)
    (hp : m.Registered p) (ps : List UserProcess) :
    Orderly m (m.withFrames ((m.kernel.frames.dropPin f i).takeBack f)) ps none := by
  refine .reowned (j := .free) hi ?_ (info?_dropPin_takeBack hi) (fun pid ho => ?_) nofun ps
  · rw [FrameTable.size_takeBack, FrameTable.size_dropPin]
  · have hreg : m.process? p.pid = some p := hp
    rw [howner, Option.some.injEq] at ho
    rw [← ho, hreg]
    exact Option.some_ne_none p

/-! ## Changes of entries, copies and bytes -/

theorem withMemory (m : Machine) (memory : PhysicalMemory) (ps : List UserProcess) :
    Orderly m (m.withMemory memory) ps none :=
  ⟨fun _ => rfl, rfl, fun _ _ _ => rfl, fun _ _ _ hd => Or.inl hd, fun _ hc => Or.inl hc,
    fun _ _ _ ho => Or.inl ho, fun _ _ _ _ _ ht => ⟨ht, fun ho => ho⟩⟩

theorem withBytes (m : Machine) (f : FrameNumber) (content : Page) (ps : List UserProcess) :
    Orderly m (m.withBytes f content) ps none := withMemory m _ ps

/-- Copies may be of dirty pages of processes that live, or go. -/
theorem withSwap {swap : Swap} (hcopies : ∀ key, swap.copy? key ≠ none →
      m.kernel.swap.copy? key ≠ none ∨ ∃ p, m.Registered p ∧ p.pid = key.1 ∧ m.Dirty p key.2)
    (ps : List UserProcess) : Orderly m (m.withSwap swap) ps none :=
  ⟨fun _ => rfl, rfl, fun _ _ _ => rfl, fun _ _ _ hd => Or.inl hd, hcopies,
    fun _ _ _ ho => Or.inl ho, fun _ _ _ _ _ ht => ⟨ht, fun ho => ho⟩⟩

theorem discard (m : Machine) (pid : ProcessId) (ps : List UserProcess) :
    Orderly m (m.withSwap (m.kernel.swap.discard pid)) ps none := by
  refine withSwap (fun key hc => Or.inl ?_) ps
  rw [Swap.copy?_discard] at hc
  split at hc
  · exact absurd rfl hc
  · exact hc

/-- An entry with the same read-only bit. Only the entries of processes that live may lead to other
frames than before. -/
theorem withEntry (hc : m.Census ps) (hq : q ∈ ps) (he : m.entryOf? q page = some e)
    (hro : e'.readOnly = e.readOnly)
    (hd : e'.dirty = true → e.dirty = true ∨ target = some (q.pid, page))
    (hf : m.process? q.pid ≠ none ∨ e'.frame? = none ∨ e'.frame? = e.frame?) :
    Orderly m (m.withEntry q page e') ps target := by
  have hentry := fun p (hp : p ∈ ps) page' => entryOf?_withEntry e' page' hc hq hp he
  refine ⟨fun _ => rfl, rfl, fun p hp page' => ?_, fun p hp page' hdirty => ?_,
    fun _ hcopy => Or.inl hcopy, fun _ _ _ ho => Or.inl ho,
    fun p hp hdead page' g ht => ⟨?_, fun ho => ho⟩⟩
  · rw [readOnly?, readOnly?]
    rcases hentry p hp page' with ⟨rfl, rfl, hnew⟩ | ⟨-, hsame⟩
    · rw [hnew, he, Option.map_some, Option.map_some, hro]
    · rw [hsame]
  · obtain ⟨e₁, he₁, hd₁⟩ := hdirty
    rcases hentry p hp page' with ⟨rfl, rfl, hnew⟩ | ⟨-, hsame⟩
    · rw [hnew, Option.some.injEq] at he₁
      exact (hd (he₁ ▸ hd₁)).imp_left fun hold => ⟨e, he, hold⟩
    · exact Or.inl ⟨e₁, hsame ▸ he₁, hd₁⟩
  · rw [translate?_table] at ht ⊢
    rcases hentry p hp page' with ⟨rfl, rfl, hnew⟩ | ⟨-, hsame⟩
    · rw [hnew, Option.bind_some] at ht
      rcases hf with halive | hnone | hsame
      · exact absurd hdead halive
      · rw [hnone] at ht
        contradiction
      · rw [he, Option.bind_some, ← hsame, ht]
    · rw [← hsame, ht]

/-- A victim loses its frame, and the store may have a copy of it if it was dirty. -/
theorem evicted {swap : Swap} (h : m.Sound l) (hq : m.Registered q)
    (he : m.entryOf? q page = some e) (hf : e.frame? = some f) (hs : m.Saved q page e f swap) :
    Orderly m (m.evicted q page e f swap) l.processes none := by
  obtain ⟨i, hi, howner, -⟩ := h.info_of_entry hq he hf
  have hreg : m.process? q.pid = some q := hq
  have halive : m.process? q.pid ≠ none := hreg ▸ Option.some_ne_none q
  have hsaved : Orderly m (m.withSwap swap) l.processes none := by
    refine .withSwap (fun key hc => ?_) _
    rw [hs key] at hc
    split at hc
    · next hkey => exact Or.inr ⟨q, hq, by rw [hkey.2], e, by rw [hkey.2]; exact he, hkey.1⟩
    · exact Or.inl hc
  have hentry : Orderly (m.withSwap swap) ((m.withSwap swap).withEntry q page e.evicted)
      l.processes none := by
    refine .withEntry (h.census.congr rfl rfl rfl) (h.census.mem hq) he ?_ (fun hd => ?_)
      (Or.inl halive)
    · exact PageEntry.readOnly_evicted e
    · rw [PageEntry.dirty_evicted] at hd
      contradiction
  have hfreed : Orderly ((m.withSwap swap).withEntry q page e.evicted)
      (m.evicted q page e f swap) l.processes none := by
    refine reowned (m := (m.withSwap swap).withEntry q page e.evicted) (j := .free) hi
      (FrameTable.size_takeBack ..) (FrameTable.info?_takeBack hi) (fun pid ho => ?_) nofun _
    rw [howner, Option.some.injEq] at ho
    exact ho ▸ halive
  have hmem := fun p (hp : m.Registered p) => h.census.mem hp
  exact (hsaved.trans hentry hmem).trans hfreed hmem

end Orderly

end Machine

end DemandPaging
