import FwLoader.Threads.Mutex

/-!
# The work queue goes on

In a fair run a queued item comes to its turn, a delay expires, and a handler that has begun comes
to its end, whatever the other threads do in between. What can come between an item and its turn is
that the time-out is cancelled, or that the thread is in the reboot that it has requested.
-/

namespace FwLoader.Threads

open Foundations System

/-- How many calls a handler still makes. -/
def WorkqPc.left : WorkqPc → ℕ
  | .pressedReschedule | .releasedCancel => 6
  | .pressedLock | .offLock _ => 5
  | .pressedSet | .offGreen _ => 4
  | .pressedGreenOn | .offRed _ => 3
  | .pressedRedOn | .offUnlock _ => 2
  | .pressedUnlock | .offReschedule _ | .reboot | .advertise => 1
  | .idle | .rebooting => 0

section

variable {d d' : Device} {e : Event} {t : Thread} {k : Call} {i : Work}

/-! ## Steps -/

/-- Which calls change the work queue. -/
theorem work_effect (hmay : MayCall t k) (ht : t ≠ .workq) :
    (d.effect t k).work = d.work ∨ ∃ w, (d.effect t k).work = d.work.submit w := by
  cases k with
  | submit w => exact .inr ⟨w, rfl⟩
  | reschedule w | cancel w => exact absurd hmay ht
  | _ => exact .inl rfl

/-- The other threads and the interrupts leave the handler alone, put items at the end of the queue
and leave a delay alone that does not expire. -/
theorem work_of_step (he : e ≠ .workq) (hstep : device.step d e = some d') :
    d'.workq = d.workq ∧ d.work.queue <+: d'.work.queue ∧
      (e ≠ .expire i → d'.work.scheduled i = d.work.scheduled i) := by
  have hcall : ∀ t k, MayCall t k → t ≠ .workq → d.work.queue <+: (d.effect t k).work.queue ∧
      (d.effect t k).work.scheduled i = d.work.scheduled i := by
    intro t k hmay ht
    rcases work_effect (d := d) hmay ht with hwork | ⟨w, hwork⟩
    · rw [hwork]
      exact ⟨List.prefix_rfl, rfl⟩
    · rw [hwork, WorkQueue.submit_scheduled]
      exact ⟨WorkQueue.queue_prefix_submit _ w, rfl⟩
  cases e with
  | main expired =>
    obtain ⟨k, hk, -, rfl⟩ := mainStep_eq_some hstep
    have hwork := hcall .main k (MainPc.mayCall hk).1 nofun
    exact ⟨effect_workq, hwork.1, fun _ => hwork.2⟩
  | bt =>
    obtain ⟨k, hk, -, rfl⟩ := btStep_eq_some hstep
    have hwork := hcall .bt k (BtPc.mayCall hk).1 nofun
    exact ⟨effect_workq, hwork.1, fun _ => hwork.2⟩
  | workq => exact absurd rfl he
  | connected err =>
    obtain ⟨-, hnext⟩ := Option.ite_none_right_eq_some.mp hstep
    obtain rfl := Option.some.inj hnext
    split <;> exact ⟨rfl, List.prefix_rfl, fun _ => rfl⟩
  | disconnected reason =>
    obtain ⟨-, hnext⟩ := Option.ite_none_right_eq_some.mp hstep
    obtain rfl := Option.some.inj hnext
    exact ⟨rfl, List.prefix_rfl, fun _ => rfl⟩
  | btReady err =>
    obtain ⟨-, hnext⟩ := Option.ite_none_right_eq_some.mp hstep
    obtain rfl := Option.some.inj hnext
    unfold Device.btReady
    split
    · exact ⟨rfl, List.prefix_rfl, fun _ => rfl⟩
    · exact ⟨rfl, WorkQueue.queue_prefix_submit _ _,
        fun _ => congrFun (WorkQueue.submit_scheduled _ _) i⟩
  | edge isPressed =>
    obtain ⟨-, hnext⟩ := Option.ite_none_right_eq_some.mp hstep
    obtain rfl := Option.some.inj hnext
    exact ⟨rfl, WorkQueue.queue_prefix_submit _ _,
      fun _ => congrFun (WorkQueue.submit_scheduled _ _) i⟩
  | expire w =>
    obtain ⟨work, hexpire, rfl⟩ := Option.map_eq_some_iff.mp hstep
    refine ⟨rfl, WorkQueue.queue_prefix_expire hexpire, fun hne => ?_⟩
    exact WorkQueue.scheduled_of_expire hexpire fun h => hne (by rw [h])

/-- A handler goes on by its calls. -/
theorem WorkqPc.left_next {pc : WorkqPc} (hk : pc.call = some k) : pc.next.left < pc.left := by
  cases pc with
  | idle | rebooting => exact nomatch hk
  | _ => simp [next, left]

/-- A queue with an item in it keeps the thread of the work queue going. -/
theorem can_of_idle (hidle : d.workq = .idle) (hi : i ∈ d.work.queue) :
    device.Can (Event.IsCall .workq) d := by
  obtain ⟨w, work, htake⟩ := WorkQueue.exists_take hi
  refine ⟨.workq, trivial, { d with work := work, workq := w.handler }, (if_pos hidle).trans ?_⟩
  rw [htake]
  rfl

theorem WorkqPc.exists_call {pc : WorkqPc} (hidle : pc ≠ .idle) (hrebooting : pc ≠ .rebooting) :
    ∃ k, pc.call = some k := by
  cases pc with
  | idle => exact absurd rfl hidle
  | rebooting => exact absurd rfl hrebooting
  | _ => exact ⟨_, rfl⟩

/-! ## The turn of a queued item -/

/-- The handler of the item begins, the time-out has been cancelled, or the reboot of the device has
been requested. -/
def Turn (i : Work) (d : Device) : Prop :=
  d.workq = i.handler ∨ i = .timeout ∧ d.workq = .offLock .released ∨ d.workq = .rebooting

/-- What is still in front of a queued item. -/
def rank (i : Work) (d : Device) : ℕ := 7 * d.work.ahead i + d.workq.left

theorem left_handler_lt (w : Work) : w.handler.left < 7 := by
  cases w <;> decide

/-- The handlers take no item out of the queue but the time-out. -/
theorem queue_effect_workq {pc : WorkqPc} (hk : pc.call = some k) :
    (d.effect .workq k).work.queue = d.work.queue ∨
      pc = .releasedCancel ∧ (d.effect .workq k).work = d.work.cancel .timeout := by
  cases pc with
  | idle | rebooting => exact nomatch hk
  | releasedCancel =>
    obtain rfl := Option.some.inj hk
    exact .inr ⟨rfl, rfl⟩
  | _ =>
    obtain rfl := Option.some.inj hk
    exact .inl rfl

/-- Each step of the work queue thread brings the item nearer to its turn. -/
theorem rank_workqStep (hi : i ∈ d.work.queue) (hstep : d.workqStep = some d') :
    Turn i d' ∨ i ∈ d'.work.queue ∧ rank i d' < rank i d := by
  obtain ⟨w, work, hidle, htake, rfl⟩ | ⟨k, hk, -, rfl⟩ := workqStep_cases hstep
  · by_cases hw : i = w
    · exact .inl (.inl (by rw [hw]))
    · obtain ⟨hi', hahead⟩ := WorkQueue.ahead_of_take htake hi hw
      refine .inr ⟨hi', ?_⟩
      have hleft := left_handler_lt w
      simp only [rank, hidle]
      omega
  · have hleft := WorkqPc.left_next hk
    rcases queue_effect_workq (d := d) hk with hqueue | ⟨hpc, hcancel⟩
    · refine .inr ⟨hqueue ▸ hi, ?_⟩
      show 7 * (d.effect .workq k).work.ahead i + d.workq.next.left < rank i d
      rw [WorkQueue.ahead, hqueue]
      exact Nat.add_lt_add_left hleft _
    · by_cases htimeout : i = .timeout
      · exact .inl (.inr (.inl ⟨htimeout, by rw [hpc]; rfl⟩))
      · obtain ⟨hi', hahead⟩ := WorkQueue.ahead_cancel_le hi htimeout
        refine .inr ⟨hcancel ▸ hi', ?_⟩
        show 7 * (d.effect .workq k).work.ahead i + d.workq.next.left < rank i d
        rw [hcancel]
        unfold rank
        omega

/-- A queued item waits for its turn. -/
theorem turn_approach (i : Work) :
    Approach device (Event.IsCall .workq) (fun d => i ∈ d.work.queue) (Turn i) (rank i) where
  stays d e d' _ hi hstep := by
    by_cases he : e = .workq
    · subst he
      exact (rank_workqStep hi hstep).imp_right fun h => ⟨h.1, h.2.le⟩
    · obtain ⟨hworkq, hqueue, -⟩ := work_of_step (i := i) he hstep
      obtain ⟨hi', hahead⟩ := WorkQueue.ahead_of_prefix hqueue hi
      refine .inr ⟨hi', ?_⟩
      rw [rank, rank, hahead, hworkq]
  nears d e d' _ hi he hstep := by
    cases e with
    | workq => exact rank_workqStep hi hstep
    | _ => exact absurd he id

/-- A delay goes on, but for the one of the time-out that is cancelled. -/
theorem scheduled_workqStep (hi : d.work.scheduled i = true) (hstep : d.workqStep = some d') :
    d'.work.scheduled i = true ∨ i = .timeout ∧ d'.workq = .offLock .released := by
  obtain ⟨w, work, hidle, htake, rfl⟩ | ⟨k, hk, -, rfl⟩ := workqStep_cases hstep
  · refine .inl ?_
    show work.scheduled i = true
    rw [WorkQueue.scheduled_of_take htake, hi]
  · cases hpc : d.workq with
    | idle | rebooting => exact nomatch hpc ▸ hk
    | pressedReschedule | offReschedule w =>
      rw [hpc] at hk
      obtain rfl := Option.some.inj hk
      exact .inl (WorkQueue.scheduled_reschedule.mpr (.inr hi))
    | releasedCancel =>
      rw [hpc] at hk
      obtain rfl := Option.some.inj hk
      by_cases htimeout : i = .timeout
      · exact .inr ⟨htimeout, rfl⟩
      · exact .inl ((Function.update_of_ne htimeout _ _).trans hi)
    | _ =>
      rw [hpc] at hk
      obtain rfl := Option.some.inj hk
      exact .inl hi

end

/-! ## Fair runs -/

section

variable {r : device.EndlessRun}

/-- A queued item comes to its turn. -/
theorem leadsTo_turn (hfair : FairDevice r) (i : Work) :
    r.LeadsTo (fun d => i ∈ d.work.queue) (Turn i) := by
  refine r.leadsTo_of_approach (hfair.call .workq) (turn_approach i) ?_
  -- a thread that is busy may have to wait for the mutex before it can go on
  have hbusy : r.LeadsTo (fun d => i ∈ d.work.queue ∧ d.workq ≠ .idle ∧ d.workq ≠ .rebooting)
      fun d => (Turn i d ∨ device.Can (Event.IsCall .workq) d) ∨
        device.Can (Event.IsCall .workq) d := by
    refine leadsTo_can hfair (fun d e d' hreach hd hstep => ?_)
      fun d _ hd => WorkqPc.exists_call hd.2.1 hd.2.2
    rcases (turn_approach i).stays d e d' hreach hd.1 hstep with hturn | ⟨hi, -⟩
    · exact .inl (.inl hturn)
    · by_cases hidle : d'.workq = .idle
      · exact .inl (.inr (can_of_idle hidle hi))
      · by_cases hrebooting : d'.workq = .rebooting
        · exact .inl (.inl (.inr (.inr hrebooting)))
        · exact .inr ⟨hi, hidle, hrebooting⟩
  intro n hi
  by_cases hidle : (r.state n).workq = .idle
  · exact ⟨n, Nat.le_refl n, .inr (can_of_idle hidle hi)⟩
  · by_cases hrebooting : (r.state n).workq = .rebooting
    · exact ⟨n, Nat.le_refl n, .inl (.inr (.inr hrebooting))⟩
    · obtain ⟨k, hk, hcan⟩ := hbusy n ⟨hi, hidle, hrebooting⟩
      exact ⟨k, hk, hcan.elim id .inr⟩

/-- A delay expires unless it is the one of the time-out and is cancelled. -/
theorem leadsTo_queued (hfair : FairDevice r) (i : Work) :
    r.LeadsTo (fun d => d.work.scheduled i = true)
      fun d => i ∈ d.work.queue ∨ i = .timeout ∧ d.workq = .offLock .released := by
  have hstays : ∀ d e d', device.Reach Any d → d.work.scheduled i = true →
      device.step d e = some d' →
      (i ∈ d'.work.queue ∨ i = .timeout ∧ d'.workq = .offLock .released) ∨
        d'.work.scheduled i = true ∧ 0 ≤ 0 := by
    intro d e d' _ hi hstep
    by_cases he : e = .workq
    · subst he
      exact (scheduled_workqStep hi hstep).elim (fun h => .inr ⟨h, Nat.le_refl 0⟩) fun h => .inl (.inr h)
    · by_cases hexpire : e = .expire i
      · subst hexpire
        obtain ⟨work, hwork, rfl⟩ := Option.map_eq_some_iff.mp hstep
        exact .inl (.inl (WorkQueue.mem_of_expire hwork))
      · refine .inr ⟨?_, Nat.le_refl 0⟩
        rw [(work_of_step he hstep).2.2 hexpire, hi]
  refine r.leadsTo_of_approach (m := fun _ => 0) (hfair.expire i) ⟨hstays, ?_⟩ (.of_imp ?_)
  · rintro d _ d' - - rfl hstep
    obtain ⟨work, hwork, rfl⟩ := Option.map_eq_some_iff.mp hstep
    exact .inl (.inl (WorkQueue.mem_of_expire hwork))
  · exact fun d _ hi => .inr ⟨.expire i, rfl, _, congrArg (Option.map _) (if_pos hi)⟩

/-- A handler that has begun goes on to its end. -/
theorem leadsTo_of_handler (hfair : FairDevice r) {S : WorkqPc → Prop} {Q : Device → Prop}
    (hcall : ∀ pc, S pc → ∃ k, pc.call = some k)
    (hnext : ∀ (d : Device) k, S d.workq → d.workq.call = some k →
      Q { d.effect .workq k with workq := d.workq.next } ∨ S d.workq.next) :
    r.LeadsTo (fun d => S d.workq) Q := by
  have hnears : ∀ d d' : Device, S d.workq → d.workqStep = some d' →
      Q d' ∨ S d'.workq ∧ d'.workq.left < d.workq.left := by
    intro d d' hS hstep
    obtain ⟨w, work, hidle, -, rfl⟩ | ⟨k, hk, -, rfl⟩ := workqStep_cases hstep
    · obtain ⟨k, hk⟩ := hcall _ hS
      exact nomatch hidle ▸ hk
    · exact (hnext d k hS hk).imp_right fun h => ⟨h, WorkqPc.left_next hk⟩
  have hstays : ∀ (d : Device) e d', device.Reach Any d → S d.workq → device.step d e = some d' →
      Q d' ∨ S d'.workq ∧ d'.workq.left ≤ d.workq.left := by
    intro d e d' _ hS hstep
    by_cases he : e = .workq
    · subst he
      exact (hnears d d' hS hstep).imp_right fun h => ⟨h.1, h.2.le⟩
    · have hworkq := (work_of_step (i := .reboot) he hstep).1
      rw [hworkq]
      exact .inr ⟨hS, Nat.le_refl _⟩
  refine r.leadsTo_of_approach (m := fun d => d.workq.left) (hfair.call .workq) ⟨hstays, ?_⟩ ?_
  · intro d e d' _ hS he hstep
    cases e with
    | workq => exact hnears d d' hS hstep
    | _ => exact absurd he id
  · exact leadsTo_can hfair
      (fun d e d' hreach hS hstep => (hstays d e d' hreach hS hstep).imp_right (·.1))
      fun d _ hS => hcall _ hS

end

end FwLoader.Threads
