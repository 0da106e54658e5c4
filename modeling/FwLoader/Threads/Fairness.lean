import FwLoader.Foundations.FairRuns
import FwLoader.Threads.Light

/-!
# Fair runs of the device

A run of the device is fair if threads that can go on do so and delays that run expire. A thread
that waits for the mutex can go on whenever the mutex is free. A delay that is started again and
again has to expire too: in a fair run nobody plays with the button for ever.
-/

namespace FwLoader.Threads

open Foundations System

/-! ## The calls of one thread -/

/-- The event is the next call of the thread. -/
def Event.IsCall : Thread → Event → Prop
  | .main, .main _ => True
  | .bt, .bt => True
  | .workq, .workq => True
  | _, _ => False

namespace Device

/-- The call that a thread makes next. -/
def call (d : Device) : Thread → Option Call
  | .main => d.main.call
  | .bt => d.bt.call
  | .workq => d.workq.call
  | .isr => none

/-- A thread is at the same place. -/
def SamePlace (d d' : Device) : Thread → Prop
  | .main => d'.main = d.main
  | .bt => d'.bt = d.bt
  | .workq => d'.workq = d.workq
  | .isr => True

theorem SamePlace.call {d d' : Device} {t : Thread} (h : d.SamePlace d' t) :
    d'.call t = d.call t := by
  cases t with
  | main => exact congrArg MainPc.call h
  | bt => exact congrArg BtPc.call h
  | workq => exact congrArg WorkqPc.call h
  | isr => rfl

end Device

section

variable {d d' : Device} {e : Event} {t : Thread} {k : Call}

theorem make_of_call {call : Option Call} (hk : call = some k) (hcan : d.CanCall k) :
    d.make t call = some (d.effect t k) := by
  rw [hk]
  exact if_pos hcan

/-- A call that need not wait can be made. -/
theorem can_of_call (hk : d.call t = some k) (hcan : d.CanCall k) :
    device.Can (Event.IsCall t) d := by
  cases t with
  | main => exact ⟨.main false, trivial, _, congrArg (Option.map _) (make_of_call hk hcan)⟩
  | bt => exact ⟨.bt, trivial, _, congrArg (Option.map _) (make_of_call hk hcan)⟩
  | workq =>
    have hbusy : d.workq ≠ .idle := by
      intro hidle
      have hk' : d.workq.call = some k := hk
      exact nomatch hidle ▸ hk'
    refine ⟨.workq, trivial, { d.effect .workq k with workq := d.workq.next }, ?_⟩
    exact (if_neg hbusy).trans (congrArg (Option.map _) (make_of_call hk hcan))
  | isr => exact nomatch hk

/-- A thread that is to make a call does not go on without it, and no other one takes the mutex from
it. -/
theorem samePlace_of_not_isCall (hlocal : ∀ t, Local t d) (hk : d.call t = some k)
    (he : ¬e.IsCall t) (hstep : device.step d e = some d') :
    d.SamePlace d' t ∧ (d'.gFwloaderLedMutex = some t ↔ d.gFwloaderLedMutex = some t) := by
  by_cases ht : t = e.thread
  · subst ht
    -- the thread that could begin something else is idle
    have hidle : e.thread = .bt ∧ d.bt = .idle ∨ e.thread = .isr := by
      cases e with
      | main expired => exact absurd trivial he
      | bt => exact absurd trivial he
      | workq => exact absurd trivial he
      | connected err => exact .inl ⟨rfl, (Option.ite_none_right_eq_some.mp hstep).1.2⟩
      | disconnected reason => exact .inl ⟨rfl, (Option.ite_none_right_eq_some.mp hstep).1.2⟩
      | btReady err | edge isPressed | expire w => exact .inr rfl
    rcases hidle with ⟨hbt, hidle⟩ | hisr
    · rw [hbt] at hk
      have hk' : d.bt.call = some k := hk
      exact nomatch hidle ▸ hk'
    · rw [hisr] at hk
      exact nomatch hk
  · have hframe := (device_step hlocal hstep).2
    refine ⟨?_, hframe.mutex.other ht⟩
    cases t with
    | main => exact hframe.main (Ne.symm ht)
    | bt => exact hframe.bt (Ne.symm ht)
    | workq => exact hframe.workq (Ne.symm ht)
    | isr => exact trivial

end

/-! ## Fairness -/

/-- Threads that can go on do so, and delays that run expire. -/
structure FairDevice (r : device.EndlessRun) : Prop where
  call : ∀ t, r.Fair (Event.IsCall t)
  expire : ∀ w, r.Fair (· = .expire w)

/-- A run that comes to a halt with a reboot is fair. -/
theorem fairDevice_of_halt {r : device.EndlessRun} {d : Device} {k : ℕ}
    (hhalt : ∀ n, k ≤ n → r.state n = d) (hmain : d.main = .rebooting) (hbt : d.bt = .idle)
    (hworkq : d.workq = .rebooting) (hscheduled : ∀ w, d.work.scheduled w = false) :
    FairDevice r where
  call t := by
    refine EndlessRun.fair_of_halt hhalt ?_
    rintro ⟨e, he, d', hstep⟩
    have hcall : ∀ k, d.call t ≠ some k := by
      cases t with
      | main => exact fun k hk => nomatch hmain ▸ (show d.main.call = some k from hk)
      | bt => exact fun k hk => nomatch hbt ▸ (show d.bt.call = some k from hk)
      | workq => exact fun k hk => nomatch hworkq ▸ (show d.workq.call = some k from hk)
      | isr => exact nofun
    cases e with
    | main expired =>
      obtain ⟨k, hk, -⟩ := mainStep_eq_some hstep
      cases t <;> first | exact hcall k hk | exact he
    | bt =>
      obtain ⟨k, hk, -⟩ := btStep_eq_some hstep
      cases t <;> first | exact hcall k hk | exact he
    | workq =>
      obtain ⟨w, work, hidle, -⟩ | ⟨k, hk, -⟩ := workqStep_cases hstep
      · exact nomatch hidle.symm.trans hworkq
      · cases t <;> first | exact hcall k hk | exact he
    | _ => cases t <;> exact he
  expire w := by
    refine EndlessRun.fair_of_halt hhalt ?_
    rintro ⟨_, rfl, d', hstep⟩
    obtain ⟨work, hexpire, -⟩ := Option.map_eq_some_iff.mp hstep
    exact nomatch (hscheduled w).symm.trans (WorkQueue.expire_eq_some hexpire).1

/-- The button is pressed and released, and the reboot is requested and carried out. -/
def pressAndRelease : List Event :=
  .edge true :: .replicate 7 .workq ++ .edge false :: .replicate 7 .workq ++
    [.expire .reboot, .workq, .workq, .main false]

/-- Nothing goes on any more. -/
def Halted (d : Device) : Prop :=
  d.main = .rebooting ∧ d.bt = .idle ∧ d.workq = .rebooting ∧
    ∀ w ∈ [Work.pressed, .released, .timeout, .reboot, .advertise], d.work.scheduled w = false

instance : DecidablePred Halted := fun _ => inferInstanceAs (Decidable (_ ∧ _))

/-- A run that ends so is the beginning of a fair one. -/
theorem exists_fairDevice (es : List Event)
    (h : (device.exec Any device.init es).any (fun d => decide (Halted d)) = true) :
    ∃ r : device.EndlessRun, FairDevice r ∧ ∀ n, r.event n = es[n]? := by
  obtain ⟨d, hrun, hmain, hbt, hworkq, hscheduled⟩ := exists_run_of_exec h
  obtain ⟨r, hevent, hhalt⟩ := EndlessRun.exists_halting hrun
  exact ⟨r, fairDevice_of_halt hhalt hmain hbt hworkq fun w => hscheduled w (by cases w <;> decide),
    hevent⟩

/-- What a fair run comes through on its way. -/
theorem state_of_exec {r : device.EndlessRun} {es : List Event} (hevent : ∀ n, r.event n = es[n]?)
    {n : ℕ} {P : Device → Prop} [DecidablePred P]
    (h : (device.exec Any device.init (es.take n)).any (fun d => decide (P d)) = true) :
    P (r.state n) := by
  obtain ⟨d, hrun, hd⟩ := exists_run_of_exec h
  rwa [(EndlessRun.run_of_event hevent n).unique hrun]

end FwLoader.Threads
