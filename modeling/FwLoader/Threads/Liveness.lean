import FwLoader.Threads.Progress
import FwLoader.Threads.Reset

/-!
# What comes about in the end

In a fair run a press of the button leads to the reboot of the device, and a client that is lost
leads to advertising, whatever the threads do in between.
-/

namespace FwLoader.Threads

open Foundations System

section

variable {d d' : Device} {e : Event} {k : Call} {r : device.EndlessRun}

/-! ## The reboot -/

/-- How many calls main makes at most up to a reboot that is requested. -/
def MainPc.left : MainPc → ℕ
  | .testPressed => 4
  | .watchdogFeed => 3
  | .testTimeout => 2
  | .testReboot => 1
  | .rebooting => 0
  | pc => 22 - pc.pos

theorem MainPc.left_next {pc : MainPc} (hk : pc.call = some k) (expired : Bool)
    (hrequested : d.gFlagRebootRequested = true) : (pc.next d expired).left < pc.left := by
  cases pc with
  | rebooting => exact nomatch hk
  | ledInitGpio c | pwmSet c | gpioPinSet c | gpioDisconnect c => cases c <;> (rw [next]; decide)
  | testReboot =>
    rw [next, if_pos hrequested]
    decide
  | isPressed | testPressed | testTimeout =>
    rw [next]
    split <;> decide
  | _ => rw [next]; decide

theorem MainPc.exists_call {pc : MainPc} (hrebooting : pc ≠ .rebooting) :
    ∃ k, pc.call = some k := by
  cases pc with
  | rebooting => exact absurd rfl hrebooting
  | _ => exact ⟨_, rfl⟩

/-- The work queue thread has requested the reboot that it waits for. -/
theorem requested_of_rebooting (hreach : device.Reach Any d) (hpc : d.workq = .rebooting) :
    d.gFlagRebootRequested = true := by
  have hway := onItsWay_of_reach hreach
  unfold OnItsWay at hway
  rwa [hpc] at hway

/-- A request is not taken back. -/
theorem requested_of_step (hlocal : ∀ t, Local t d) (hstep : device.step d e = some d')
    (h : d.gFlagRebootRequested = true) : d'.gFlagRebootRequested = true := by
  by_cases he : e = .workq
  · subst he
    obtain ⟨w, work, -, -, rfl⟩ | ⟨k, -, -, rfl⟩ := workqStep_cases hstep
    · exact h
    · cases k <;> first | exact h | rfl
  · rw [(device_step hlocal hstep).2.reboot (fun ht => he (by cases e <;> first | rfl | cases ht)), h]

/-- The handler that switches the LEDs off starts the delay of the reboot at its end. -/
def WorkqPc.IsOff : WorkqPc → Prop
  | .releasedCancel | .offLock _ | .offGreen _ | .offRed _ | .offUnlock _ | .offReschedule _ => True
  | _ => False

theorem leadsTo_scheduled (hfair : FairDevice r) :
    r.LeadsTo (fun d => d.workq.IsOff) fun d => d.work.scheduled .reboot = true := by
  refine leadsTo_of_handler hfair (fun pc hoff => ?_) fun d k hoff hk => ?_
  · exact WorkqPc.exists_call (by rintro rfl; exact hoff) (by rintro rfl; exact hoff)
  · cases hpc : d.workq with
    | releasedCancel | offLock w | offGreen w | offRed w | offUnlock w => exact .inr trivial
    | offReschedule w =>
      rw [hpc] at hk
      obtain rfl := Option.some.inj hk
      exact .inl (WorkQueue.scheduled_reschedule.mpr (.inl rfl))
    | _ =>
      rw [hpc] at hoff
      exact absurd hoff id

theorem leadsTo_requested_of_rebooting :
    r.LeadsTo (fun d => d.workq = .rebooting) fun d => d.gFlagRebootRequested = true :=
  .of_imp fun _ => requested_of_rebooting

theorem leadsTo_requested_of_reboot (hfair : FairDevice r) :
    r.LeadsTo (fun d => d.workq = .reboot) fun d => d.gFlagRebootRequested = true := by
  refine (leadsTo_of_handler hfair (S := (· = .reboot)) ?_ fun d k hpc _ => .inl ?_).trans
    leadsTo_requested_of_rebooting
  · rintro _ rfl
    exact ⟨_, rfl⟩
  · show d.workq.next = .rebooting
    rw [hpc]
    rfl

/-- A reboot that is scheduled or queued is requested from main. -/
theorem leadsTo_requested_of_pending (hfair : FairDevice r) :
    r.LeadsTo (fun d => d.work.Pending .reboot) fun d => d.gFlagRebootRequested = true := by
  have hturn : r.LeadsTo (Turn .reboot) fun d => d.gFlagRebootRequested = true := by
    refine ((leadsTo_requested_of_reboot hfair).or leadsTo_requested_of_rebooting).mono
      (fun d _ h => ?_) fun _ _ h => h
    exact h.imp_right fun h' => h'.resolve_left fun h'' => nomatch h''.1
  have hqueued := (leadsTo_turn hfair .reboot).trans hturn
  have hscheduled : r.LeadsTo (fun d => d.work.scheduled .reboot = true)
      fun d => Work.reboot ∈ d.work.queue :=
    (leadsTo_queued hfair .reboot).mono (fun _ _ h => h) fun d _ h =>
      h.resolve_right fun h' => nomatch h'.1
  exact (hscheduled.trans hqueued).or hqueued

theorem leadsTo_requested_of_off (hfair : FairDevice r) :
    r.LeadsTo (fun d => d.workq.IsOff) fun d => d.gFlagRebootRequested = true :=
  (leadsTo_scheduled hfair).trans
    ((leadsTo_requested_of_pending hfair).mono (fun _ _ h => .inl h) fun _ _ h => h)

/-- The time-out of the button leads to the reboot, even if it is cancelled. -/
theorem leadsTo_requested_of_timeout (hfair : FairDevice r) :
    r.LeadsTo (fun d => d.work.Pending .timeout) fun d => d.gFlagRebootRequested = true := by
  have hoff := leadsTo_requested_of_off hfair
  have hturn : r.LeadsTo (Turn .timeout) fun d => d.gFlagRebootRequested = true := by
    refine (hoff.or leadsTo_requested_of_rebooting).mono (fun d _ h => ?_) fun _ _ h => h
    rcases h with hpc | ⟨-, hpc⟩ | hpc
    · exact .inl (by rw [hpc]; trivial)
    · exact .inl (by rw [hpc]; trivial)
    · exact .inr hpc
  have hqueued := (leadsTo_turn hfair .timeout).trans hturn
  have hscheduled := (leadsTo_queued hfair .timeout).trans
    ((hqueued.or hoff).mono (fun d _ h => h.imp_right fun ⟨_, hpc⟩ => by rw [hpc]; trivial)
      fun _ _ h => h)
  exact hscheduled.or hqueued

/-- A press leads to the request of a reboot. -/
theorem leadsTo_requested (hfair : FairDevice r) :
    r.LeadsTo (fun d => d.gFlagButtonPressed = true) fun d => d.gFlagRebootRequested = true := by
  have hrequested : r.LeadsTo (fun d => d.gFlagRebootRequested = true)
      fun d => d.gFlagRebootRequested = true := .of_imp fun _ _ h => h
  have htowards : r.LeadsTo TowardsReset fun d => d.gFlagRebootRequested = true :=
    (leadsTo_requested_of_timeout hfair).or ((leadsTo_requested_of_pending hfair).or hrequested)
  refine (htowards.or ((leadsTo_requested_of_off hfair).or
    (leadsTo_requested_of_reboot hfair))).mono (fun d hreach hpressed => ?_) fun _ _ h => h
  have hway := onItsWay_of_reach hreach
  unfold OnItsWay at hway
  cases hpc : d.workq with
  | idle | advertise | pressedReschedule =>
    rw [hpc] at hway
    exact .inl (hway hpressed)
  | pressedLock | pressedSet | pressedGreenOn | pressedRedOn | pressedUnlock =>
    rw [hpc] at hway
    exact .inl (.inl hway)
  | releasedCancel | offLock w | offGreen w | offRed w | offUnlock w | offReschedule w =>
    exact .inr (.inl trivial)
  | reboot => exact .inr (.inr rfl)
  | rebooting =>
    rw [hpc] at hway
    exact .inl (.inr (.inr hway))

/-- A reboot that is requested is carried out by main. -/
theorem leadsTo_rebooting (hfair : FairDevice r) :
    r.LeadsTo (fun d => d.gFlagRebootRequested = true) fun d => d.main = .rebooting := by
  have hnears : ∀ (d : Device) e d', device.Reach Any d → d.gFlagRebootRequested = true →
      e.IsCall .main → device.step d e = some d' →
      d'.main = .rebooting ∨ d'.gFlagRebootRequested = true ∧ d'.main.left < d.main.left := by
    intro d e d' hreach hrequested he hstep
    have hrequested' := requested_of_step (local_of_reach hreach) hstep hrequested
    cases e with
    | main expired =>
      obtain ⟨k, hk, -, rfl⟩ := mainStep_eq_some hstep
      exact .inr ⟨hrequested', MainPc.left_next hk expired hrequested⟩
    | _ => exact absurd he id
  have hstays : ∀ (d : Device) e d', device.Reach Any d → d.gFlagRebootRequested = true →
      device.step d e = some d' →
      d'.main = .rebooting ∨ d'.gFlagRebootRequested = true ∧ d'.main.left ≤ d.main.left := by
    intro d e d' hreach hrequested hstep
    by_cases he : e.IsCall .main
    · exact (hnears d e d' hreach hrequested he hstep).imp_right fun h => ⟨h.1, h.2.le⟩
    · have hlocal := local_of_reach hreach
      have ht : e.thread ≠ .main := by
        cases e <;> first | exact absurd trivial he | exact nofun
      rw [(device_step hlocal hstep).2.main ht]
      exact .inr ⟨requested_of_step hlocal hstep hrequested, Nat.le_refl _⟩
  refine r.leadsTo_of_approach (m := fun d => d.main.left) (hfair.call .main) ⟨hstays, hnears⟩ ?_
  have hbusy : r.LeadsTo (fun d => d.gFlagRebootRequested = true ∧ d.main ≠ .rebooting)
      fun d => d.main = .rebooting ∨ device.Can (Event.IsCall .main) d := by
    refine leadsTo_can hfair (fun d e d' hreach hd hstep => ?_) fun d _ hd => ?_
    · by_cases hpc : d'.main = .rebooting
      · exact .inl hpc
      · exact .inr ⟨requested_of_step (local_of_reach hreach) hstep hd.1, hpc⟩
    · exact MainPc.exists_call hd.2
  intro n hrequested
  by_cases hpc : (r.state n).main = .rebooting
  · exact ⟨n, Nat.le_refl n, .inl hpc⟩
  · exact hbusy n ⟨hrequested, hpc⟩

/-- The handler of a press, up to the call that sets the flag. -/
def WorkqPc.IsPressing : WorkqPc → Prop
  | .pressedReschedule | .pressedLock | .pressedSet => True
  | _ => False

/-- The handler of a press sets the flag. -/
theorem leadsTo_pressed (hfair : FairDevice r) :
    r.LeadsTo (fun d => d.workq.IsPressing) fun d => d.gFlagButtonPressed = true := by
  refine leadsTo_of_handler hfair (fun pc hpressing => ?_) fun d k hpressing hk => ?_
  · exact WorkqPc.exists_call (by rintro rfl; exact hpressing) (by rintro rfl; exact hpressing)
  · cases hpc : d.workq with
    | pressedReschedule | pressedLock => exact .inr trivial
    | pressedSet =>
      rw [hpc] at hk
      obtain rfl := Option.some.inj hk
      exact .inl rfl
    | _ =>
      rw [hpc] at hpressing
      exact absurd hpressing id

/-- A press that is queued leads to the request of a reboot. -/
theorem leadsTo_requested_of_queued (hfair : FairDevice r) :
    r.LeadsTo (fun d => Work.pressed ∈ d.work.queue) fun d => d.gFlagRebootRequested = true := by
  refine (leadsTo_turn hfair .pressed).trans
    ((((leadsTo_pressed hfair).trans (leadsTo_requested hfair)).or
      leadsTo_requested_of_rebooting).mono (fun d _ h => ?_) fun _ _ h => h)
  rcases h with hpc | ⟨hpc, -⟩ | hpc
  · exact .inl (by rw [hpc]; trivial)
  · exact nomatch hpc
  · exact .inr hpc

/-- In a fair run each press of the button leads to the reboot of the device by main, from the edge
that the interrupt sees and from the flag that the handler sets. -/
theorem pressed_leadsTo_rebooting (hfair : FairDevice r) :
    (r.LeadsTo (fun d => d.gFlagButtonPressed = true) fun d => d.main = .rebooting) ∧
      ∀ n, r.event n = some (.edge true) → ∃ k, n < k ∧ (r.state k).main = .rebooting := by
  refine ⟨(leadsTo_requested hfair).trans (leadsTo_rebooting hfair), fun n hn => ?_⟩
  obtain ⟨-, hnext⟩ := Option.ite_none_right_eq_some.mp (EndlessRun.next_of_some hn)
  have hqueued : Work.pressed ∈ (r.state (n + 1)).work.queue := by
    rw [← Option.some.inj hnext]
    exact WorkQueue.mem_submit.mpr (.inl rfl)
  obtain ⟨k, hk, hmain⟩ :=
    ((leadsTo_requested_of_queued hfair).trans (leadsTo_rebooting hfair)) (n + 1) hqueued
  exact ⟨k, hk, hmain⟩

/-! ## Advertising -/

/-- How many calls a callback still makes. -/
def BtPc.left : BtPc → ℕ
  | .setFlag _ => 7
  | .ledLock _ => 6
  | .isPressed _ => 5
  | .ledOff _ => 4
  | .ledOn _ => 3
  | .ledUnlock _ => 2
  | .submitAdvertise => 1
  | .idle => 0

theorem BtPc.left_next {pc : BtPc} (hk : pc.call = some k) (d : Device) :
    (pc.next d).left < pc.left := by
  cases pc with
  | idle => exact nomatch hk
  | isPressed b | ledUnlock b =>
    rw [next]
    split <;> simp [left]
  | _ => simp [next, left]

/-- The callback of a client that is lost, up to its submit. -/
def BtPc.IsDisconnected : BtPc → Prop
  | .setFlag false | .ledLock false | .isPressed false | .ledOff false | .ledOn false
  | .ledUnlock false | .submitAdvertise => True
  | _ => False

/-- The callback goes on up to its submit. -/
theorem BtPc.isDisconnected_next (hk : d.bt.call = some k)
    (h : d.bt.IsDisconnected) :
    Work.advertise ∈ (d.effect .bt k).work.queue ∨ (d.bt.next d).IsDisconnected := by
  cases hpc : d.bt with
  | idle => exact nomatch hpc ▸ hk
  | submitAdvertise =>
    rw [hpc] at hk
    obtain rfl := Option.some.inj hk
    exact .inl (WorkQueue.mem_submit.mpr (.inl rfl))
  | isPressed b =>
    rw [hpc] at h
    cases b with
    | true => exact absurd h id
    | false =>
      refine .inr ?_
      rw [next]
      split <;> trivial
  | setFlag b | ledLock b | ledOff b | ledOn b | ledUnlock b =>
    rw [hpc] at h
    cases b with
    | true => exact absurd h id
    | false => exact .inr trivial

theorem leadsTo_advertise (hfair : FairDevice r) :
    r.LeadsTo (fun d => d.bt.IsDisconnected) fun d => Work.advertise ∈ d.work.queue := by
  have hcall : ∀ pc : BtPc, pc.IsDisconnected → ∃ k, pc.call = some k := by
    intro pc hpc
    cases pc with
    | idle => exact absurd hpc id
    | _ => exact ⟨_, rfl⟩
  have hnears : ∀ (d : Device) e d', device.Reach Any d → d.bt.IsDisconnected →
      e.IsCall .bt → device.step d e = some d' →
      Work.advertise ∈ d'.work.queue ∨ d'.bt.IsDisconnected ∧ d'.bt.left < d.bt.left := by
    intro d e d' _ hd he hstep
    cases e with
    | bt =>
      obtain ⟨k, hk, -, rfl⟩ := btStep_eq_some hstep
      exact (BtPc.isDisconnected_next hk hd).imp_right fun h => ⟨h, BtPc.left_next hk d⟩
    | _ => exact absurd he id
  have hstays : ∀ (d : Device) e d', device.Reach Any d → d.bt.IsDisconnected →
      device.step d e = some d' →
      Work.advertise ∈ d'.work.queue ∨ d'.bt.IsDisconnected ∧ d'.bt.left ≤ d.bt.left := by
    intro d e d' hreach hd hstep
    by_cases he : e.IsCall .bt
    · exact (hnears d e d' hreach hd he hstep).imp_right fun h => ⟨h.1, h.2.le⟩
    · obtain ⟨k, hk⟩ := hcall _ hd
      have hplace : d'.bt = d.bt :=
        (samePlace_of_not_isCall (t := .bt) (local_of_reach hreach) hk he hstep).1
      rw [hplace]
      exact .inr ⟨hd, Nat.le_refl _⟩
  refine r.leadsTo_of_approach (m := fun d => d.bt.left) (hfair.call .bt) ⟨hstays, hnears⟩ ?_
  exact leadsTo_can hfair
    (fun d e d' hreach hd hstep => (hstays d e d' hreach hd hstep).imp_right (·.1))
    fun d _ hd => hcall _ hd

/-- The handler that advertises makes its call. -/
theorem advertises_of_turn (hfair : FairDevice r) {n : ℕ} (hn : (r.state n).workq = .advertise) :
    ∃ k, n ≤ k ∧ r.event k = some .workq ∧ (r.state k).workq = .advertise := by
  have hends : r.LeadsTo (fun d => d.workq = .advertise) fun d => d.workq ≠ .advertise := by
    refine leadsTo_of_handler hfair (S := (· = .advertise)) ?_ fun d k hpc _ => .inl ?_
    · rintro _ rfl
      exact ⟨_, rfl⟩
    · show d.workq.next ≠ .advertise
      rw [hpc]
      exact nofun
  obtain ⟨j, hj, hnot⟩ := hends n hn
  obtain ⟨k, e, hk, he, hpc, hnext⟩ :=
    EndlessRun.exists_event_of_not (P := fun d : Device => d.workq = .advertise) hj hn fun h => hnot h
  refine ⟨k, hk, ?_, hpc⟩
  by_cases hworkq : e = .workq
  · rw [he, hworkq]
  · exact absurd ((work_of_step (i := .advertise) hworkq (EndlessRun.next_of_some he)).1.trans hpc) hnext

/-- In a fair run the device advertises when Bluetooth has become ready and each time that a client
is lost, unless main reboots it. -/
theorem advertises_of_disconnected (hfair : FairDevice r) {n : ℕ}
    (hn : r.event n = some (.btReady 0) ∨ ∃ reason, r.event n = some (.disconnected reason)) :
    ∃ k, n < k ∧ (r.event k = some .workq ∧ (r.state k).workq = .advertise ∨
      (r.state k).main = .rebooting) := by
  have hturn : ∀ j, Work.advertise ∈ (r.state j).work.queue →
      ∃ k, j ≤ k ∧ (r.event k = some .workq ∧ (r.state k).workq = .advertise ∨
        (r.state k).main = .rebooting) := by
    intro j hj
    obtain ⟨k, hk, hpc | ⟨hpc, -⟩ | hpc⟩ := leadsTo_turn hfair .advertise j hj
    · obtain ⟨l, hl, hcall⟩ := advertises_of_turn hfair hpc
      exact ⟨l, hk.trans hl, .inl hcall⟩
    · exact nomatch hpc
    · obtain ⟨l, hl, hmain⟩ :=
        (leadsTo_requested_of_rebooting.trans (leadsTo_rebooting hfair)) k hpc
      exact ⟨l, hk.trans hl, .inr hmain⟩
  rcases hn with hready | ⟨reason, hlost⟩
  · obtain ⟨-, hnext⟩ := Option.ite_none_right_eq_some.mp (EndlessRun.next_of_some hready)
    have hqueued : Work.advertise ∈ (r.state (n + 1)).work.queue := by
      rw [← Option.some.inj hnext]
      exact WorkQueue.mem_submit.mpr (.inl rfl)
    exact hturn (n + 1) hqueued
  · obtain ⟨-, hnext⟩ := Option.ite_none_right_eq_some.mp (EndlessRun.next_of_some hlost)
    have hbt : (r.state (n + 1)).bt.IsDisconnected := by
      rw [← Option.some.inj hnext]
      trivial
    obtain ⟨j, hj, hqueued⟩ := leadsTo_advertise hfair (n + 1) hbt
    obtain ⟨k, hk, hcall⟩ := hturn j hqueued
    exact ⟨k, hj.trans hk, hcall⟩

end

/-- A press, a release, and the reboot. -/
theorem pressed_leadsTo_rebooting_sample :
    ∃ r : device.EndlessRun, FairDevice r ∧ r.event 17 = some (.edge true) ∧
      (r.state 25).gFlagButtonPressed = true ∧
      (∃ k, 25 ≤ k ∧ (r.state k).main = .rebooting) ∧
      ∃ k, 17 < k ∧ (r.state k).main = .rebooting := by
  obtain ⟨r, hfair, hevent⟩ :=
    exists_fairDevice (.replicate 17 (.main false) ++ pressAndRelease) (by decide)
  have hedge : r.event 17 = some (.edge true) := (hevent 17).trans (by decide)
  have hpressed : (r.state 25).gFlagButtonPressed = true :=
    state_of_exec (P := fun d => d.gFlagButtonPressed = true) hevent (by decide)
  obtain ⟨hflag, hevent'⟩ := pressed_leadsTo_rebooting hfair
  exact ⟨r, hfair, hedge, hpressed, hflag 25 hpressed, hevent' 17 hedge⟩

/-- A client is lost, the device advertises, and then it is rebooted by the button. -/
theorem advertises_of_disconnected_sample :
    ∃ r : device.EndlessRun, FairDevice r ∧ r.event 17 = some (.disconnected 0) ∧
      ∃ k, 17 < k ∧ (r.event k = some .workq ∧ (r.state k).workq = .advertise ∨
        (r.state k).main = .rebooting) := by
  obtain ⟨r, hfair, hevent⟩ := exists_fairDevice
    (.replicate 17 (.main false) ++ .disconnected 0 :: .replicate 7 .bt ++
      [.workq, .workq] ++ pressAndRelease) (by decide)
  have hlost : r.event 17 = some (.disconnected 0) := (hevent 17).trans (by decide)
  exact ⟨r, hfair, hlost, advertises_of_disconnected hfair (.inr ⟨0, hlost⟩)⟩

end FwLoader.Threads
