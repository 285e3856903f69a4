import DemandPaging.Frames.FreeListOperation
import DemandPaging.Proofs.FreeStack
import DemandPaging.Proofs.LastCalls

/-!
# A free list in the hands of any client

The stack and the marks of a free list agree whatever is called (`FreeList.Valid`), and so a call
taken statement by statement comes to the same as the function of the list
(`FreeList.Valid.call_eq`).

The order of the list is told by the calls that were made: on top the frames that were put on it and
not taken off since (`FreeList.Pending`), the last of them first, and below them the frames that
were never taken off (`FreeList.Fresh`), in the order of their numbers. Each call keeps it so
(`FreeList.Records.call`).
-/

namespace DemandPaging

namespace FreeList

variable {l l' : FreeList} {f : FrameNumber} {n i : Nat} {op : Operation}

/-! ## A call statement by statement -/

/-- The outcome of a call that changes nothing if it violates an assertion. -/
def settle (l : FreeList) :
    Except Violation (Reply × FreeList) → Except Violation Reply × FreeList
  | .ok (reply, l') => (.ok reply, l')
  | .error v => (.error v, l)

theorem run_mark {b : Bool} (h : l.listed[f.toNat]? = some b) :
    (Operation.mark f).run l = .ok b l := by
  simp only [Operation.mark, EStateM.run_bind, EStateM.run_get, h]
  rfl

theorem run_setMark {b : Bool} (h : l.listed[f.toNat]? = some b) (b' : Bool) :
    (Operation.setMark f b').run l =
      .ok () { l with listed := l.listed.setIfInBounds f.toNat b' } := by
  simp only [Operation.setMark, EStateM.run_bind, run_mark h]
  rfl

/-- No assertion is violated after a statement that has changed something, since a frame on the
stack has a mark. -/
theorem Valid.call_eq (h : l.Valid n) (op : Operation) : op.call l = l.settle (op.apply l) := by
  cases op with
  | pop =>
    simp only [Operation.call, Operation.perform, Operation.apply, FreeList.pop?, EStateM.run_bind,
      EStateM.run_get]
    cases hstack : l.stack with
    | nil => rfl
    | cons f fs =>
      have hmem : f ∈ l.toList := by rw [toList, hstack]; exact List.mem_cons_self
      have hmark : (⟨fs, l.listed⟩ : FreeList).listed[f.toNat]? = some true := by
        simpa only [hmem, decide_true] using h.getElem?_listed (h.lt_of_mem hmem)
      simp only [EStateM.run_bind, EStateM.run_modify, run_setMark hmark]
      rfl
  | push f =>
    simp only [Operation.call, Operation.perform, Operation.apply, FreeList.push, EStateM.run_bind]
    cases hmark : l.listed[f.toNat]? with
    | none =>
      simp only [Operation.mark, EStateM.run_bind, EStateM.run_get, hmark]
      rfl
    | some b =>
      simp only [run_mark hmark]
      cases b with
      | true => rfl
      | false =>
        simp only [Bool.false_eq_true, if_false, EStateM.run_bind, run_setMark hmark]
        rfl

/-- The frame that is handed out is the first of those listed. -/
theorem Valid.call_pop (h : l.Valid n) : ∃ l', l'.Valid n ∧ l'.toList = l.toList.tail ∧
    Operation.pop.call l = (.ok (.frame l.toList.head?), l') := by
  rw [h.call_eq, Operation.apply]
  cases hpop : l.pop? with
  | none =>
    rw [pop?_eq_none_iff.mp hpop]
    exact ⟨l, h, pop?_eq_none_iff.mp hpop, rfl⟩
  | some popped =>
    rw [toList_of_pop? hpop]
    exact ⟨popped.2, h.pop? hpop, rfl, rfl⟩

theorem Valid.call_push (h : l.Valid n) (f : FrameNumber) :
    if n ≤ f.toNat then (Operation.push f).call l = (.error .outOfBounds, l)
    else if f ∈ l.toList then (Operation.push f).call l = (.error (.releasedTwice f), l)
    else ∃ l', (Operation.push f).call l = (.ok .done, l') ∧ l'.toList = f :: l.toList := by
  rw [h.call_eq, Operation.apply, h.push_eq]
  split
  · rfl
  · split
    · rfl
    · exact ⟨_, rfl, rfl⟩

/-- One call after the other takes off the frames as they are listed. -/
theorem Valid.replay_pop {k : Nat} (h : l.Valid n) (hk : k ≤ l.size) :
    (l.replay (List.replicate k .pop)).1 =
      (l.toList.take k).map fun f => ⟨.pop, .ok (.frame (some f))⟩ := by
  induction k generalizing l with
  | zero => rfl
  | succ k ih =>
    obtain ⟨l', hl', htail, hcall⟩ := h.call_pop
    have hlength : k + 1 ≤ l.toList.length := hk
    cases hlist : l.toList with
    | nil =>
      rw [hlist] at hlength
      contradiction
    | cons f fs =>
      rw [hlist] at hlength htail hcall
      have hrest : k ≤ l'.toList.length := by
        rw [htail]
        exact Nat.le_of_succ_le_succ hlength
      simp only [List.replicate_succ, replay, hcall, ih hl' hrest, htail, List.tail_cons,
        List.head?_cons, List.take_succ_cons, List.map_cons]

/-! ## What the calls tell -/

namespace Entry

/-- Frame `f` was put on the list. -/
def Pushes (e : Entry) (f : FrameNumber) : Prop := e.operation = .push f ∧ e.outcome = .ok .done

/-- Frame `f` was taken off the list. -/
def Pops (e : Entry) (f : FrameNumber) : Prop :=
  e.operation = .pop ∧ e.outcome = .ok (.frame (some f))

end Entry

/-- Call number `i` put frame `f` on the list, and `f` was not taken off since. -/
def Pending (past : List Entry) (i : Nat) (f : FrameNumber) : Prop :=
  ∃ before e behind, past = before ++ e :: behind ∧ (before.length = i ∧ e.Pushes f) ∧
    ∀ x ∈ behind, ¬ x.Pops f

/-- Of the frames that were put on the list and not taken off since, `f` is the one that was put on
it last. -/
def Latest (past : List Entry) (f : FrameNumber) : Prop :=
  ∃ i, Pending past i f ∧ ∀ j g, Pending past j g → j ≤ i

/-- Frame `f` was never taken off the list. -/
def Fresh (past : List Entry) (f : FrameNumber) : Prop := ∀ e ∈ past, ¬ e.Pops f

variable {past : List Entry} {e : Entry} {pushed : List (Nat × FrameNumber)}
  {rest : List FrameNumber} {outcome : Except Violation Reply}

theorem pending_append : Pending (past ++ [e]) i f ↔
    past.length = i ∧ e.Pushes f ∨ Pending past i f ∧ ¬ e.Pops f :=
  @exists_since_append _ (fun before (x : Entry) => before.length = i ∧ x.Pushes f)
    (fun x => x.Pops f) past e

theorem Pending.lt (h : Pending past i f) : i < past.length := by
  obtain ⟨before, e, behind, rfl, ⟨rfl, -⟩, -⟩ := h
  simp

theorem fresh_append : Fresh (past ++ [e]) f ↔ Fresh past f ∧ ¬ e.Pops f := by
  simp [Fresh, or_imp, forall_and]

/-- The order that the calls `past` of a list of `n` frames tell: first the frames in `pushed`, with
the numbers of the calls that put them on the list, the last of these first; then those in
`rest`. -/
structure Tells (n : Nat) (past : List Entry) (pushed : List (Nat × FrameNumber))
    (rest : List FrameNumber) : Prop where
  pending : ∀ i f, (i, f) ∈ pushed ↔ Pending past i f
  latest_first : pushed.Pairwise fun x y => y.1 < x.1
  fresh : ∀ f, f ∈ rest ↔ f.toNat < n ∧ Fresh past f
  ascending : rest.Pairwise fun f g => f.toNat < g.toNat

namespace Tells

theorem full (hn : n ≤ wordBound) : Tells n [] [] (full n).toList where
  pending _ _ := iff_of_false List.not_mem_nil not_exists_since_nil
  latest_first := List.Pairwise.nil
  fresh _ := (mem_toList_full hn).trans (and_iff_left nofun).symm
  ascending := ascending_full hn

/-- A call that neither puts a frame on the list nor takes one off. -/
theorem idle (h : Tells n past pushed rest) (hpushes : ∀ f, ¬ e.Pushes f)
    (hpops : ∀ f, ¬ e.Pops f) : Tells n (past ++ [e]) pushed rest where
  pending i f := by simp [pending_append, hpushes, hpops, h.pending]
  latest_first := h.latest_first
  fresh f := by simp [fresh_append, hpops, h.fresh]
  ascending := h.ascending

theorem push (h : Tells n past pushed rest) (f : FrameNumber) :
    Tells n (past ++ [⟨.push f, .ok .done⟩]) ((past.length, f) :: pushed) rest where
  pending i g := by simp [pending_append, Entry.Pushes, Entry.Pops, h.pending, eq_comm]
  latest_first := List.pairwise_cons.mpr
    ⟨fun x hx => ((h.pending x.1 x.2).mp hx).lt, h.latest_first⟩
  fresh g := by simp [fresh_append, Entry.Pops, h.fresh]
  ascending := h.ascending

/-- The frame that is taken off was put on the list before. -/
theorem pop_pushed (h : Tells n past ((i, f) :: pushed) rest) (hpushed : f ∉ pushed.map Prod.snd)
    (hrest : f ∉ rest) : Tells n (past ++ [⟨.pop, .ok (.frame (some f))⟩]) pushed rest where
  pending j g := by
    have hne : (j, g) ∈ pushed → g ≠ f := fun hg heq =>
      hpushed (List.mem_map.mpr ⟨(j, g), hg, heq⟩)
    simp only [pending_append, Entry.Pushes, Entry.Pops, ← h.pending]
    grind
  latest_first := h.latest_first.tail
  fresh g := by
    simp only [fresh_append, Entry.Pops, ← and_assoc, ← h.fresh]
    grind
  ascending := h.ascending

/-- The frame that is taken off was never taken off before. -/
theorem pop_fresh (h : Tells n past [] (f :: rest)) (hrest : f ∉ rest) :
    Tells n (past ++ [⟨.pop, .ok (.frame (some f))⟩]) [] rest where
  pending j g := by simp [pending_append, Entry.Pushes, ← h.pending]
  latest_first := List.Pairwise.nil
  fresh g := by
    simp only [fresh_append, Entry.Pops, ← and_assoc, ← h.fresh]
    grind
  ascending := h.ascending.tail

end Tells

/-! ## The list bears it out -/

/-- The list is in the order that the calls tell. -/
structure Records (n : Nat) (past : List Entry) (l : FreeList) : Prop where
  valid : l.Valid n
  order : ∃ pushed rest, l.toList = pushed.map Prod.snd ++ rest ∧ Tells n past pushed rest

namespace Records

theorem full (hn : n ≤ wordBound) : Records n [] (full n) where
  valid := .full hn
  order := ⟨[], _, rfl, .full hn⟩

theorem idle (h : Records n past l) (hpushes : ∀ f, ¬ e.Pushes f) (hpops : ∀ f, ¬ e.Pops f) :
    Records n (past ++ [e]) l := by
  obtain ⟨pushed, rest, horder, htells⟩ := h.order
  exact ⟨h.valid, pushed, rest, horder, htells.idle hpushes hpops⟩

theorem pop (h : Records n past l) (hpop : l.pop? = some (f, l')) :
    Records n (past ++ [⟨.pop, .ok (.frame (some f))⟩]) l' := by
  obtain ⟨pushed, rest, horder, htells⟩ := h.order
  have hnodup := h.valid.nodup
  rw [toList_of_pop? hpop] at horder hnodup
  have hf := (List.nodup_cons.mp hnodup).1
  refine ⟨h.valid.pop? hpop, ?_⟩
  cases pushed with
  | nil =>
    rw [List.map_nil, List.nil_append] at horder
    subst horder
    exact ⟨[], _, rfl, htells.pop_fresh hf⟩
  | cons x pushed =>
    obtain ⟨i, g⟩ := x
    rw [List.map_cons, List.cons_append, List.cons.injEq] at horder
    obtain ⟨rfl, htail⟩ := horder
    rw [htail, List.mem_append, not_or] at hf
    exact ⟨pushed, rest, htail, htells.pop_pushed hf.1 hf.2⟩

theorem push (h : Records n past l) (hpush : l.push f = .ok l') :
    Records n (past ++ [⟨.push f, .ok .done⟩]) l' := by
  obtain ⟨pushed, rest, horder, htells⟩ := h.order
  refine ⟨h.valid.push hpush, (past.length, f) :: pushed, rest, ?_, htells.push f⟩
  rw [toList_of_push hpush, horder]
  rfl

/-- **One call**: the list stays in the order that the calls tell. -/
theorem call (h : Records n past l) (hcall : op.call l = (outcome, l')) :
    Records n (past ++ [⟨op, outcome⟩]) l' := by
  rw [h.valid.call_eq] at hcall
  cases op with
  | pop =>
    cases hpop : l.pop? with
    | none =>
      simp only [Operation.apply, hpop] at hcall
      cases hcall
      exact h.idle (by simp [Entry.Pushes]) (by simp [Entry.Pops])
    | some popped =>
      simp only [Operation.apply, hpop] at hcall
      cases hcall
      exact h.pop hpop
  | push f =>
    cases hpush : l.push f with
    | error v =>
      simp only [Operation.apply, hpush] at hcall
      cases hcall
      exact h.idle (by simp [Entry.Pushes]) (by simp [Entry.Pops])
    | ok pushed =>
      simp only [Operation.apply, hpush] at hcall
      cases hcall
      exact h.push hpush

/-- As long as some frame was put on the list and not taken off since, the last of these is on
top. -/
theorem head_latest (h : Records n past l) (hpending : ∃ i f, Pending past i f) :
    ∃ f, l.toList.head? = some f ∧ Latest past f := by
  obtain ⟨pushed, rest, horder, htells⟩ := h.order
  obtain ⟨j, g, hg⟩ := hpending
  cases pushed with
  | nil => exact absurd ((htells.pending j g).mpr hg) List.not_mem_nil
  | cons x pushed =>
    obtain ⟨i, f⟩ := x
    refine ⟨f, by rw [horder]; rfl, i, (htells.pending i f).mp List.mem_cons_self, fun j g hg => ?_⟩
    cases List.mem_cons.mp ((htells.pending j g).mpr hg) with
    | inl heq => exact Nat.le_of_eq (congrArg Prod.fst heq)
    | inr hmem => exact Nat.le_of_lt (List.rel_of_pairwise_cons htells.latest_first hmem)

/-- Once all frames that were put on the list were taken off again, the others are left, in the
order of their numbers. -/
theorem rest_of_not_pending (h : Records n past l) (hpending : ∀ i f, ¬ Pending past i f) :
    l.toList.Pairwise (fun f g => f.toNat < g.toNat) ∧
      ∀ f, f ∈ l.toList ↔ f.toNat < n ∧ Fresh past f := by
  obtain ⟨pushed, rest, horder, htells⟩ := h.order
  obtain rfl : pushed = [] := List.eq_nil_iff_forall_not_mem.mpr fun x hx =>
    hpending x.1 x.2 ((htells.pending x.1 x.2).mp hx)
  rw [horder]
  exact ⟨htells.ascending, htells.fresh⟩

end Records

/-- **Any number of calls.** -/
theorem History.records (h : History (.full n) past l) (hn : n ≤ wordBound) : Records n past l := by
  induction h with
  | start => exact .full hn
  | call _ hcall ih => exact ih.call hcall

/-! ## Main statement -/

/-- **A free list is a stack without duplicates.** After any sequence of calls of a list that began
with `n` free frames, calls that violate an assertion included, the marks are on the frames of the
stack, each of which is there once, so that there are never more than `n`. Frames are taken off as
they are listed, the first of them first. A frame is put in front of all others, unless it does not
exist or is listed already; then the list is what it was, although the call is taken statement by
statement, so that every call comes to the same as the function of the list. As long as some frame
was put on the list and not taken off since, the next one to be taken off is the one of these that
was put on it last. Once there is none, what is left are the frames that were never taken off, in
the order of their numbers. -/
theorem History.last_in_first_out (h : History (.full n) past l) (hn : n ≤ wordBound) :
    (∀ f, l.contains f = true ↔ f ∈ l.toList) ∧ l.toList.Nodup ∧ l.size ≤ n ∧
    (∃ l', l'.toList = l.toList.tail ∧ Operation.pop.call l = (.ok (.frame l.toList.head?), l')) ∧
    (∀ k, k ≤ l.size → (l.replay (List.replicate k .pop)).1 =
      (l.toList.take k).map fun f => ⟨.pop, .ok (.frame (some f))⟩) ∧
    (∀ f, if n ≤ f.toNat then (Operation.push f).call l = (.error .outOfBounds, l)
      else if f ∈ l.toList then (Operation.push f).call l = (.error (.releasedTwice f), l)
      else ∃ l', (Operation.push f).call l = (.ok .done, l') ∧ l'.toList = f :: l.toList) ∧
    ((∃ i f, Pending past i f) → ∃ f l', Operation.pop.call l = (.ok (.frame (some f)), l') ∧
      Latest past f) ∧
    ((∀ i f, ¬ Pending past i f) → l.toList.Pairwise (fun f g => f.toNat < g.toNat) ∧
      ∀ f, f ∈ l.toList ↔ f.toNat < n ∧ Fresh past f) ∧
    ∀ op : Operation, op.call l = l.settle (op.apply l) := by
  have hrecords := h.records hn
  have hvalid := hrecords.valid
  obtain ⟨l', -, htail, hcall⟩ := hvalid.call_pop
  refine ⟨hvalid.listed, hvalid.nodup, hvalid.size_le hn, ⟨l', htail, hcall⟩,
    fun k => hvalid.replay_pop, hvalid.call_push, fun hpending => ?_,
    hrecords.rest_of_not_pending, hvalid.call_eq⟩
  obtain ⟨f, hhead, hlatest⟩ := hrecords.head_latest hpending
  rw [hhead] at hcall
  exact ⟨f, l', hcall, hlatest⟩

/-- Two frames are taken off and one of them is put back, and two calls go wrong. -/
def returns : List Entry :=
  [⟨.push ⟨1⟩, .error (.releasedTwice ⟨1⟩)⟩, ⟨.pop, .ok (.frame (some ⟨0⟩))⟩,
    ⟨.pop, .ok (.frame (some ⟨1⟩))⟩, ⟨.push ⟨0⟩, .ok .done⟩, ⟨.push ⟨7⟩, .error .outOfBounds⟩]

/-- The list that they leave behind. -/
def returned : FreeList := ⟨[⟨0⟩, ⟨2⟩], #[true, false, true]⟩

/-- The frame that was put back is taken off again. -/
def allTaken : List Entry := returns ++ [⟨.pop, .ok (.frame (some ⟨0⟩))⟩]

theorem history_returns : History (.full 3) returns returned := by
  have h₁ : History (.full 3) (returns.take 1) (.full 3) := .call .start rfl
  have h₂ : History (.full 3) (returns.take 2) ⟨[⟨1⟩, ⟨2⟩], #[false, true, true]⟩ := h₁.call rfl
  have h₃ : History (.full 3) (returns.take 3) ⟨[⟨2⟩], #[false, false, true]⟩ := h₂.call rfl
  have h₄ : History (.full 3) (returns.take 4) returned := h₃.call rfl
  exact h₄.call rfl

/-- No other frame was put back. -/
theorem eq_zero_of_pending_returns (h : Pending returns i f) : f = ⟨0⟩ := by
  obtain ⟨before, e, behind, hsplit, ⟨-, hop, hok⟩, -⟩ := h
  have he : e ∈ returns := by
    rw [hsplit]
    exact List.mem_append_right _ List.mem_cons_self
  simp only [returns, List.mem_cons, List.not_mem_nil, or_false] at he
  obtain rfl | rfl | rfl | rfl | rfl := he
  · cases hok
  · cases hop
  · cases hop
  · cases hop
    rfl
  · cases hok

theorem last_in_first_out_returned :
    History (.full 3) returns returned ∧ 3 ≤ wordBound ∧ returned.size ≤ 3 ∧
    Pending returns 3 ⟨0⟩ ∧
    (∃ f l', Operation.pop.call returned = (.ok (.frame (some f)), l') ∧ Latest returns f) ∧
    History (.full 3) allTaken ⟨[⟨2⟩], #[false, false, true]⟩ ∧ (∀ i f, ¬ Pending allTaken i f) ∧
    Fresh allTaken ⟨2⟩ ∧ (Operation.push ⟨2⟩).call ⟨[⟨2⟩], #[false, false, true]⟩ =
      (.error (.releasedTwice ⟨2⟩), ⟨[⟨2⟩], #[false, false, true]⟩) := by
  have hpending : Pending returns 3 ⟨0⟩ :=
    ⟨returns.take 3, _, returns.drop 4, rfl, ⟨rfl, rfl, rfl⟩, by simp [returns, Entry.Pops]⟩
  have hdone : ∀ i f, ¬ Pending allTaken i f := fun i f h => by
    rcases pending_append.mp h with ⟨-, hpush, -⟩ | ⟨hreturns, hpop⟩
    · cases hpush
    · exact hpop ⟨rfl, by rw [eq_zero_of_pending_returns hreturns]⟩
  have hall : History (.full 3) allTaken ⟨[⟨2⟩], #[false, false, true]⟩ := history_returns.call rfl
  obtain ⟨-, -, hsize, -, -, -, hlatest, -⟩ := history_returns.last_in_first_out (by decide)
  obtain ⟨-, -, -, -, -, hpush, -, hrest, -⟩ := hall.last_in_first_out (by decide)
  exact ⟨history_returns, by decide, hsize, hpending, hlatest ⟨3, ⟨0⟩, hpending⟩, hall, hdone,
    (((hrest hdone).2 ⟨2⟩).mp List.mem_cons_self).2, hpush ⟨2⟩⟩

end FreeList

end DemandPaging
