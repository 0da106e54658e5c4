import Mathlib.Data.List.Nodup
import Mathlib.Data.List.Perm.Subperm
import Mathlib.Logic.Function.Basic
import Mathlib.Tactic.Basic

/-!
# Work queues

One thread takes the items of a queue in the order in which they were submitted. An item that is
already queued is not queued again. Items can also be scheduled: they are submitted when their delay
expires. `Pending` items are on their way to be handled, scheduled or queued, and the lemmas say for
each operation which items it adds to or takes from them.
-/

namespace Foundations

/-- The queued items, without repetitions, and the items whose delay is running. -/
structure WorkQueue (ι : Type) where
  queue : List ι
  nodup : queue.Nodup
  scheduled : ι → Bool

namespace WorkQueue

variable {ι : Type} {w w' : WorkQueue ι} {i j : ι}

def empty : WorkQueue ι := ⟨[], .nil, fun _ => false⟩

/-- The item is scheduled or queued. -/
def Pending (w : WorkQueue ι) (i : ι) : Prop := w.scheduled i = true ∨ i ∈ w.queue

/-- Take the first item out of the queue. -/
def take : WorkQueue ι → Option (ι × WorkQueue ι)
  | ⟨[], _, _⟩ => none
  | ⟨i :: queue, nodup, scheduled⟩ => some (i, ⟨queue, (List.nodup_cons.mp nodup).2, scheduled⟩)

/-- To take an item out of the queue changes nothing for the others. -/
theorem pending_of_take (h : w.take = some (i, w')) (hne : j ≠ i) : w'.Pending j ↔ w.Pending j := by
  obtain ⟨_ | ⟨k, queue⟩, nodup, scheduled⟩ := w
  · exact nomatch h
  · obtain ⟨rfl, rfl⟩ := Prod.mk.inj (Option.some.inj h)
    simp [Pending, hne]

/-- The item that is taken was pending. -/
theorem pending_taken (h : w.take = some (i, w')) : w.Pending i := by
  obtain ⟨_ | ⟨k, queue⟩, nodup, scheduled⟩ := w
  · exact nomatch h
  · obtain ⟨rfl, -⟩ := Prod.mk.inj (Option.some.inj h)
    exact .inr List.mem_cons_self

theorem scheduled_of_take (h : w.take = some (i, w')) : w'.scheduled = w.scheduled := by
  obtain ⟨_ | ⟨k, queue⟩, nodup, scheduled⟩ := w
  · exact nomatch h
  · obtain ⟨rfl, rfl⟩ := Prod.mk.inj (Option.some.inj h)
    rfl

/-- A queue with an item in it has a first one. -/
theorem exists_take (hi : i ∈ w.queue) : ∃ j w', w.take = some (j, w') := by
  obtain ⟨_ | ⟨j, queue⟩, nodup, scheduled⟩ := w
  · exact absurd hi List.not_mem_nil
  · exact ⟨j, _, rfl⟩

section Operations

variable [DecidableEq ι]

/-- Queue an item unless it is queued already. -/
def submit (w : WorkQueue ι) (i : ι) : WorkQueue ι :=
  if h : i ∈ w.queue then w
  else { w with
    queue := w.queue ++ [i]
    nodup := List.nodup_append.mpr
      ⟨w.nodup, List.nodup_singleton i, fun _ hj _ hi => by
        rintro rfl
        exact h (List.mem_singleton.mp hi ▸ hj)⟩ }

/-- Start the delay of an item again. -/
def reschedule (w : WorkQueue ι) (i : ι) : WorkQueue ι :=
  { w with scheduled := Function.update w.scheduled i true }

/-- Stop the delay of an item, or take it out of the queue. -/
def cancel (w : WorkQueue ι) (i : ι) : WorkQueue ι where
  queue := w.queue.erase i
  nodup := w.nodup.erase i
  scheduled := Function.update w.scheduled i false

/-- The delay of a scheduled item expires. -/
def expire (w : WorkQueue ι) (i : ι) : Option (WorkQueue ι) :=
  if w.scheduled i then
    some ({ w with scheduled := Function.update w.scheduled i false }.submit i)
  else none

@[simp] theorem submit_scheduled (w : WorkQueue ι) (i : ι) :
    (w.submit i).scheduled = w.scheduled := by
  unfold submit
  split <;> rfl

@[simp] theorem mem_submit : j ∈ (w.submit i).queue ↔ j = i ∨ j ∈ w.queue := by
  unfold submit
  split
  · rename_i hi
    exact ⟨.inr, fun h => h.elim (fun hji => hji ▸ hi) id⟩
  · rw [List.mem_append, List.mem_singleton, or_comm]

/-- To submit one item changes nothing for the others. -/
theorem pending_submit_of_ne (h : j ≠ i) : (w.submit i).Pending j ↔ w.Pending j := by
  simp [Pending, h]

@[simp] theorem pending_reschedule : (w.reschedule i).Pending j ↔ j = i ∨ w.Pending j := by
  unfold Pending reschedule
  by_cases h : j = i
  · subst h
    simp
  · simp [h]

@[simp] theorem pending_cancel : (w.cancel i).Pending j ↔ j ≠ i ∧ w.Pending j := by
  unfold Pending cancel
  by_cases h : j = i
  · subst h
    simp [w.nodup.not_mem_erase]
  · simp [h, List.mem_erase_of_ne h]

/-- An item whose delay expires was scheduled and is submitted. -/
theorem expire_eq_some (h : w.expire i = some w') : w.scheduled i = true ∧
    w' = { w with scheduled := Function.update w.scheduled i false }.submit i := by
  unfold expire at h
  obtain ⟨hi, hw'⟩ := Option.ite_none_right_eq_some.mp h
  exact ⟨hi, (Option.some.inj hw').symm⟩

/-- When a delay expires, what was scheduled is queued. -/
theorem pending_of_expire (h : w.expire i = some w') : w'.Pending j ↔ w.Pending j := by
  obtain ⟨hi, rfl⟩ := expire_eq_some h
  unfold Pending
  rw [submit_scheduled, mem_submit]
  by_cases hj : j = i
  · subst hj
    simp [hi]
  · simp [hj]

theorem scheduled_reschedule : (w.reschedule i).scheduled j = true ↔ j = i ∨ w.scheduled j = true := by
  unfold reschedule
  by_cases h : j = i
  · subst h
    simp
  · simp [h]

/-! ## The turn of a queued item -/

/-- The number of items in front of an item. -/
def ahead (w : WorkQueue ι) (i : ι) : ℕ := w.queue.idxOf i

/-- What is submitted comes behind. -/
theorem queue_prefix_submit (w : WorkQueue ι) (i : ι) : w.queue <+: (w.submit i).queue := by
  unfold submit
  split
  · exact List.prefix_rfl
  · exact List.prefix_append _ _

theorem queue_prefix_expire (h : w.expire i = some w') : w.queue <+: w'.queue := by
  obtain ⟨-, rfl⟩ := expire_eq_some h
  exact queue_prefix_submit { w with scheduled := Function.update w.scheduled i false } i

theorem ahead_of_prefix (h : w.queue <+: w'.queue) (hi : i ∈ w.queue) :
    i ∈ w'.queue ∧ w'.ahead i = w.ahead i := by
  obtain ⟨rest, hrest⟩ := h
  unfold ahead
  rw [← hrest]
  exact ⟨List.mem_append_left rest hi, List.idxOf_append_of_mem hi⟩

/-- When another item is taken, an item comes one place nearer to its turn. -/
theorem ahead_of_take (h : w.take = some (j, w')) (hi : i ∈ w.queue) (hne : i ≠ j) :
    i ∈ w'.queue ∧ w'.ahead i + 1 = w.ahead i := by
  obtain ⟨_ | ⟨k, queue⟩, nodup, scheduled⟩ := w
  · exact nomatch h
  · obtain ⟨rfl, rfl⟩ := Prod.mk.inj (Option.some.inj h)
    exact ⟨(List.mem_cons.mp hi).resolve_left hne, (List.idxOf_cons_ne _ (Ne.symm hne)).symm⟩

private theorem idxOf_erase_le (l : List ι) (hne : i ≠ j) : (l.erase j).idxOf i ≤ l.idxOf i := by
  induction l with
  | nil => exact Nat.le_refl _
  | cons k l ih =>
    by_cases hi : k = i
    · subst hi
      rw [List.erase_cons_tail (by simpa using hne), List.idxOf_cons_self]
      exact Nat.zero_le _
    · rw [List.idxOf_cons_ne _ hi, List.erase_cons]
      split
      · exact Nat.le_succ _
      · rw [List.idxOf_cons_ne _ hi]
        exact Nat.succ_le_succ ih

/-- When another item is cancelled, an item does not lose its place. -/
theorem ahead_cancel_le (hi : i ∈ w.queue) (hne : i ≠ j) :
    i ∈ (w.cancel j).queue ∧ (w.cancel j).ahead i ≤ w.ahead i :=
  ⟨(List.mem_erase_of_ne hne).mpr hi, idxOf_erase_le w.queue hne⟩

/-- Only the delay that expires ends. -/
theorem scheduled_of_expire (h : w.expire i = some w') (hne : i ≠ j) :
    w'.scheduled j = w.scheduled j := by
  obtain ⟨-, rfl⟩ := expire_eq_some h
  rw [submit_scheduled]
  exact Function.update_of_ne (Ne.symm hne) _ _

/-- The item whose delay expires is queued. -/
theorem mem_of_expire (h : w.expire i = some w') : i ∈ w'.queue := by
  obtain ⟨-, rfl⟩ := expire_eq_some h
  exact mem_submit.mpr (.inl rfl)

end Operations

end WorkQueue

end Foundations
