import Mathlib.Data.List.Nodup
import DemandPaging.Frames.WaitQueue

/-!
# The waiting room

A waiting room serves the calls that wait with the tickets `ts` if each of them either is in the
queue and sleeps, or has left the queue and has a wake-up pending. Then the number of pending
wake-ups is the number of waiting calls less the length of the queue, and what the operations of the
room do to it is a matter of lengths.
-/

namespace DemandPaging

namespace WaitRoom

/-- The tickets among `ts` for which a wake-up is pending. -/
def woken (r : WaitRoom) (ts : List Ticket) : Nat :=
  ts.countP fun t => r.parkers[t]? = some ⟨true⟩

/-- Whoever waits with one of the tickets `ts` sleeps in the queue or was woken. -/
structure Serves (r : WaitRoom) (ts : List Ticket) : Prop where
  nodup : ts.Nodup
  nodup_queue : r.queue.waiting.Nodup
  asleep : ∀ t ∈ r.queue.waiting, t ∈ ts ∧ r.parkers[t]? = some ⟨false⟩
  awake : ∀ t ∈ ts, t ∉ r.queue.waiting → r.parkers[t]? = some ⟨true⟩

variable {r r' : WaitRoom} {t : Ticket} {ts ts' : List Ticket}

/-- Nobody waits in an empty room. -/
theorem serves_empty : empty.Serves [] :=
  ⟨.nil, .nil, fun _ ht => absurd ht List.not_mem_nil, fun _ ht => absurd ht List.not_mem_nil⟩

theorem Serves.perm (h : r.Serves ts) (hperm : ts.Perm ts') : r.Serves ts' where
  nodup := hperm.nodup_iff.mp h.nodup
  nodup_queue := h.nodup_queue
  asleep t ht := ⟨hperm.mem_iff.mp (h.asleep t ht).1, (h.asleep t ht).2⟩
  awake t ht := h.awake t (hperm.mem_iff.mpr ht)

/-- Who waits was woken or is in the queue. -/
theorem Serves.woken_add_size (h : r.Serves ts) : r.woken ts + r.queue.size = ts.length := by
  have hqueue : (ts.filter fun t => ¬ r.parkers[t]? = some ⟨true⟩).Perm r.queue.waiting := by
    rw [List.perm_ext_iff_of_nodup (h.nodup.filter _) h.nodup_queue]
    intro t
    rw [List.mem_filter, decide_eq_true_eq]
    constructor
    · rintro ⟨ht, hsleeps⟩
      by_contra hout
      exact hsleeps (h.awake t ht hout)
    · intro ht
      obtain ⟨hmem, hsleeps⟩ := h.asleep t ht
      refine ⟨hmem, ?_⟩
      rw [hsleeps]
      decide
  have hsplit := List.length_eq_countP_add_countP (l := ts) fun t => r.parkers[t]? = some ⟨true⟩
  rw [hsplit, woken, WaitQueue.size, ← hqueue.length_eq, ← List.countP_eq_length_filter]
  simp only [decide_not, decide_eq_true_eq]

/-- A ticket with a pending wake-up is one of those that are counted. -/
theorem exists_of_woken (h : r.woken ts ≠ 0) : ∃ t ∈ ts, r.parkers[t]? = some ⟨true⟩ := by
  obtain ⟨t, ht, hwoken⟩ := List.countP_pos_iff.mp (Nat.pos_of_ne_zero h)
  exact ⟨t, ht, of_decide_eq_true hwoken⟩

/-! ## Waking up -/

theorem wakeOne_of_nil (h : r.queue.waiting = []) : r.wakeOne.2 = r := by
  simp only [wakeOne, WaitQueue.wakeOne, h]

theorem wakeOne_of_cons (h : r.queue.waiting = t :: ts) :
    r.wakeOne.2 = ⟨⟨ts⟩, r.parkers.modify t Parker.unpark⟩ := by
  simp only [wakeOne, WaitQueue.wakeOne, h, unpark]

/-- The oldest waiter leaves the queue, and a wake-up is pending for it. -/
theorem Serves.wakeOne (h : r.Serves ts) : r.wakeOne.2.Serves ts := by
  cases hq : r.queue.waiting with
  | nil =>
    rw [wakeOne_of_nil hq]
    exact h
  | cons t rest =>
    have hnodup := h.nodup_queue
    rw [hq, List.nodup_cons] at hnodup
    rw [wakeOne_of_cons hq]
    refine ⟨h.nodup, hnodup.2, fun u hu => ?_, fun u hu hout => ?_⟩
    · have hne : t ≠ u := fun heq => hnodup.1 (heq ▸ hu)
      obtain ⟨hmem, hsleeps⟩ := h.asleep u (by rw [hq]; exact List.mem_cons_of_mem t hu)
      refine ⟨hmem, ?_⟩
      rw [Array.getElem?_modify, if_neg hne]
      exact hsleeps
    · rw [Array.getElem?_modify]
      by_cases htu : t = u
      · obtain ⟨-, hsleeps⟩ := h.asleep u (by rw [hq, htu]; exact List.mem_cons_self)
        rw [if_pos htu, hsleeps]
        rfl
      · rw [if_neg htu]
        refine h.awake u hu ?_
        rw [hq, List.mem_cons, not_or]
        exact ⟨fun heq => htu heq.symm, hout⟩

theorem size_wakeOne (r : WaitRoom) : r.wakeOne.2.queue.size = r.queue.size - 1 := by
  cases hq : r.queue.waiting with
  | nil => rw [wakeOne_of_nil hq, WaitQueue.size, hq]; rfl
  | cons t rest => rw [wakeOne_of_cons hq, WaitQueue.size, WaitQueue.size, hq]; rfl

/-- The room after waiters were woken `n` times. -/
def wakeMany (r : WaitRoom) : Nat → WaitRoom
  | 0 => r
  | n + 1 => r.wakeOne.2.wakeMany n

theorem Serves.wakeMany (h : r.Serves ts) (n : Nat) : (r.wakeMany n).Serves ts := by
  induction n generalizing r with
  | zero => exact h
  | succ n ih => exact ih h.wakeOne

theorem size_wakeMany_le (r : WaitRoom) (n : Nat) : (r.wakeMany n).queue.size ≤ r.queue.size := by
  induction n generalizing r with
  | zero => exact Nat.le_refl _
  | succ n ih =>
    have hone := size_wakeOne r
    have hrest := ih r.wakeOne.2
    rw [WaitRoom.wakeMany]
    omega

/-- Those who are woken leave the front of the queue. -/
theorem queue_wakeMany (r : WaitRoom) (n : Nat) :
    (r.wakeMany n).queue.waiting = r.queue.waiting.drop n := by
  induction n generalizing r with
  | zero => rfl
  | succ n ih =>
    rw [wakeMany, ih]
    cases hq : r.queue.waiting with
    | nil => rw [wakeOne_of_nil hq, hq, List.drop_nil, List.drop_nil]
    | cons t rest => rw [wakeOne_of_cons hq, List.drop_succ_cons]

/-- Those who leave the queue have a wake-up pending. -/
theorem parkers_wakeMany (r : WaitRoom) (n : Nat) (t : Ticket) :
    (r.wakeMany n).parkers[t]? =
      if t ∈ r.queue.waiting.take n then r.parkers[t]?.map Parker.unpark else r.parkers[t]? := by
  induction n generalizing r with
  | zero => rw [List.take_zero, if_neg List.not_mem_nil, wakeMany]
  | succ n ih =>
    rw [wakeMany, ih]
    cases hq : r.queue.waiting with
    | nil => rw [wakeOne_of_nil hq, hq, List.take_nil, List.take_nil]
    | cons u rest =>
      rw [wakeOne_of_cons hq, List.take_succ_cons]
      simp only [Array.getElem?_modify, List.mem_cons]
      by_cases hut : u = t
      · -- the same ticket may be further behind in the queue, but its wake-up is pending already
        have htwice : (r.parkers[t]?.map Parker.unpark).map Parker.unpark =
            r.parkers[t]?.map Parker.unpark := Option.map_map ..
        rw [if_pos hut, if_pos (Or.inl hut.symm), htwice, ite_self]
      · simp only [if_neg hut, show ¬ t = u from fun heq => hut heq.symm, false_or]

/-! ## Sleeping -/

/-- Only a pending wake-up can be taken, and then it is not pending any more. -/
theorem park?_eq_some : r.park? t = some r' ↔
    r.parkers[t]? = some ⟨true⟩ ∧ r' = { r with parkers := r.parkers.setIfInBounds t ⟨false⟩ } := by
  unfold park?
  cases hparker : r.parkers[t]? with
  | none => exact ⟨nofun, fun h => nomatch h.1⟩
  | some parker =>
    obtain ⟨notified⟩ := parker
    cases notified with
    | false => exact ⟨nofun, fun h => nomatch h.1⟩
    | true => exact ⟨fun h => ⟨rfl, (Option.some.inj h).symm⟩, fun h => congrArg some h.2.symm⟩

/-- A call that takes its wake-up does not wait any more. -/
theorem Serves.park (h : r.Serves (t :: ts)) (hpark : r.park? t = some r') :
    r'.Serves ts ∧ r'.queue = r.queue := by
  obtain ⟨hparker, rfl⟩ := park?_eq_some.mp hpark
  have hnodup := List.nodup_cons.mp h.nodup
  refine ⟨⟨hnodup.2, h.nodup_queue, fun u hu => ?_, fun u hu hout => ?_⟩, rfl⟩
  · obtain ⟨hmem, hsleeps⟩ := h.asleep u hu
    have hne : t ≠ u := by
      rintro rfl
      rw [hparker] at hsleeps
      contradiction
    refine ⟨(List.mem_cons.mp hmem).resolve_left hne.symm, ?_⟩
    rw [Array.getElem?_setIfInBounds_ne hne]
    exact hsleeps
  · have hne : t ≠ u := fun heq => hnodup.1 (heq ▸ hu)
    rw [Array.getElem?_setIfInBounds_ne hne]
    exact h.awake u (List.mem_cons_of_mem t hu) hout

/-- A call that queues up sleeps behind everyone else. -/
theorem Serves.enqueue (h : r.Serves ts) :
    (r.addParker.enqueue r.parkers.size).Serves (r.parkers.size :: ts) := by
  have hlt : ∀ t ∈ ts, t < r.parkers.size := by
    intro t ht
    by_cases hq : t ∈ r.queue.waiting
    · exact (Array.getElem?_eq_some_iff.mp (h.asleep t hq).2).1
    · exact (Array.getElem?_eq_some_iff.mp (h.awake t ht hq)).1
  have hnew : r.parkers.size ∉ ts := fun hmem => absurd (hlt _ hmem) (Nat.lt_irrefl _)
  have hget : ∀ t ∈ ts, (r.parkers.push Parker.new)[t]? = r.parkers[t]? := by
    intro t ht
    rw [Array.getElem?_push_lt (hlt t ht), Array.getElem?_eq_getElem (hlt t ht)]
  refine ⟨List.nodup_cons.mpr ⟨hnew, h.nodup⟩, ?_, fun t ht => ?_, fun t ht hout => ?_⟩
  · refine List.nodup_append.mpr ⟨h.nodup_queue, List.nodup_singleton _, fun t ht u hu heq => ?_⟩
    rw [List.mem_singleton] at hu
    exact hnew (hu ▸ heq ▸ (h.asleep t ht).1)
  · cases List.mem_append.mp ht with
    | inl hold =>
      obtain ⟨hmem, hsleeps⟩ := h.asleep t hold
      exact ⟨List.mem_cons_of_mem _ hmem, (hget t hmem).trans hsleeps⟩
    | inr hlast =>
      rw [List.mem_singleton] at hlast
      subst hlast
      exact ⟨List.mem_cons_self, Array.getElem?_push_size⟩
  · have hout' : t ∉ r.queue.waiting ∧ t ≠ r.parkers.size := by
      refine ⟨fun hmem => hout (List.mem_append_left _ hmem), fun heq => hout ?_⟩
      exact List.mem_append_right _ (List.mem_singleton.mpr heq)
    have hmem := (List.mem_cons.mp ht).resolve_left hout'.2
    exact (hget t hmem).trans (h.awake t hmem hout'.1)

end WaitRoom

end DemandPaging
