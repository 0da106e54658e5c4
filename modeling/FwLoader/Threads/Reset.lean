import FwLoader.Threads.Interference

/-!
# After a press the device is reset

The handlers of the button cancel and start the delays of each other, but there is always one more
step towards the reset: the time-out or the reboot is pending, or the reboot is requested.
`OnItsWay` says what this comes to within each handler. The watchdog is not fed any more, but for
one feed that main may have decided on before the press.
-/

namespace FwLoader.Threads

open Foundations System

/-- The time-out or the reboot is scheduled or queued, or the reboot is requested. -/
def TowardsReset (d : Device) : Prop :=
  d.work.Pending .timeout ∨ d.work.Pending .reboot ∨ d.gFlagRebootRequested = true

/-- Between handlers the device is on its way to a reset, once the button is pressed. The handler of
a press starts the time-out first; the two others start the reboot at their end. -/
def OnItsWay (d : Device) : Prop :=
  match d.workq with
  | .idle | .advertise | .pressedReschedule => d.gFlagButtonPressed = true → TowardsReset d
  | .pressedLock | .pressedSet | .pressedGreenOn | .pressedRedOn | .pressedUnlock =>
    d.work.Pending .timeout
  | .releasedCancel | .offLock _ | .offGreen _ | .offRed _ | .offUnlock _ | .offReschedule _ => True
  | .reboot => True
  | .rebooting => d.gFlagRebootRequested = true

section

variable {d d' : Device} {e : Event}

/-! ## The handlers -/

private theorem towardsReset_of_take {w : Work} {work : WorkQueue Work}
    (h : TowardsReset d) (htake : d.work.take = some (w, work)) (htimeout : Work.timeout ≠ w)
    (hreboot : Work.reboot ≠ w) {pc : WorkqPc} :
    TowardsReset { d with work := work, workq := pc } :=
  h.imp (WorkQueue.pending_of_take htake htimeout).mpr
    (Or.imp (WorkQueue.pending_of_take htake hreboot).mpr id)

theorem onItsWay_workqStep (h : OnItsWay d) (hstep : d.workqStep = some d') : OnItsWay d' := by
  obtain ⟨w, work, hidle, htake, rfl⟩ | ⟨k, hk, hcan, rfl⟩ := workqStep_cases hstep
  · have hidle' : d.gFlagButtonPressed = true → TowardsReset d := by
      unfold OnItsWay at h
      rw [hidle] at h
      exact h
    cases w with
    | pressed | advertise =>
      intro hpressed
      exact towardsReset_of_take (hidle' hpressed) htake nofun nofun
    | released | timeout | reboot => exact trivial
  · unfold OnItsWay at h
    cases hpc : d.workq with
    | idle | rebooting => exact nomatch hpc ▸ hk
    | _ =>
      rw [hpc] at hk h
      obtain rfl := Option.some.inj hk
      first
      | exact trivial
      | exact h
      | exact rfl
      -- the time-out or the reboot is started, or the handler that has started it ends
      | exact WorkQueue.pending_reschedule.mpr (.inl rfl)
      | exact fun _ => .inr (.inl (WorkQueue.pending_reschedule.mpr (.inl rfl)))
      | exact fun _ => .inl h

/-- The other threads do not take the device off its way. -/
theorem OnItsWay.stable {t : Thread} (h : OnItsWay d) (ht : t ≠ .workq) (hframe : Frame t d d') :
    OnItsWay d' := by
  have hworkq := hframe.workq ht
  have hpressed : d'.gFlagButtonPressed = d.gFlagButtonPressed :=
    hframe.pressed.resolve_right fun hp => ht hp.1
  have htimeout := hframe.pending ht .timeout (.inl rfl)
  have hreboot := hframe.pending ht .reboot (.inr rfl)
  unfold OnItsWay TowardsReset at h ⊢
  rw [hworkq, hpressed, htimeout, hreboot, hframe.reboot ht]
  exact h

theorem onItsWay_of_reach {C : Device → Event → Prop} (h : device.Reach C d) : OnItsWay d := by
  refine h.invariant_of_reach nofun fun d e d' hreach hway _ hstep => ?_
  have hlocal := local_of_reach hreach
  by_cases ht : e.thread = .workq
  · cases e with
    | workq => exact onItsWay_workqStep hway hstep
    | _ => exact nomatch ht
  · exact hway.stable ht (device_step hlocal hstep).2

/-! ## The watchdog -/

/-- The number of times that main has fed the watchdog with the button pressed. -/
def noteFeed (feeds : ℕ) (d : Device) (e : Event) : ℕ :=
  if e.thread = .main ∧ d.main = .watchdogFeed ∧ d.gFlagButtonPressed = true then feeds + 1
  else feeds

/-- Main feeds the watchdog at most once more, if it had tested the button before the press. -/
structure FedOnce (p : Device × ℕ) : Prop where
  before : p.1.gFlagButtonPressed = false → p.2 = 0
  tested : p.1.main = .watchdogFeed → p.2 = 0
  once : p.2 ≤ 1

/-- Main decides to feed the watchdog when it finds the button not pressed. -/
theorem MainPc.unpressed_of_next {pc : MainPc} {expired : Bool}
    (h : pc.next d expired = .watchdogFeed) : d.gFlagButtonPressed = false := by
  cases pc with
  | testPressed => simpa [next] using h
  | ledInitGpio c | pwmSet c => cases c <;> cases h
  | testReboot | isPressed | testTimeout =>
    rw [next] at h
    split at h <;> cases h
  | _ => cases h

theorem fedOnce_step {feeds : ℕ} (hlocal : ∀ t, Local t d) (h : FedOnce (d, feeds))
    (hstep : device.step d e = some d') : FedOnce (d', noteFeed feeds d e) := by
  obtain ⟨hbefore, htested, honce⟩ := h
  have hframe := (device_step hlocal hstep).2
  by_cases hmain : e.thread = .main
  swap
  · -- only main feeds the watchdog
    rw [noteFeed, if_neg (fun hfeed => hmain hfeed.1)]
    refine ⟨fun hnot => hbefore (hframe.unpressed_before hnot), fun hpc => htested ?_, honce⟩
    rw [← hframe.main hmain, hpc]
  cases e with
  | main expired =>
    obtain ⟨k, hk, hcan, rfl⟩ := mainStep_eq_some hstep
    by_cases hfeed : d.main = .watchdogFeed
    · obtain rfl : feeds = 0 := htested hfeed
      refine ⟨fun hnot => ?_, fun hpc => ?_, ?_⟩
      · rw [noteFeed, if_neg]
        rintro ⟨-, -, hpressed⟩
        exact nomatch (hframe.unpressed_before hnot).symm.trans hpressed
      · have hnext : d.main.next d expired = .watchdogFeed := hpc
        rw [hfeed] at hnext
        exact nomatch hnext
      · unfold noteFeed
        split <;> omega
    · rw [noteFeed, if_neg (fun h => hfeed h.2.1)]
      refine ⟨fun hnot => hbefore (hframe.unpressed_before hnot), fun hpc => ?_, honce⟩
      exact hbefore (MainPc.unpressed_of_next hpc)
  | _ => exact nomatch hmain

/-! ## Every run -/

/-- Between handlers with the button pressed, the time-out or the reboot is scheduled or queued or
the reboot is requested, and from the press on main feeds the watchdog at most once. -/
theorem pressed_towardsReset {p : Device × ℕ} (h : (device.addGhost 0 noteFeed).Reach Any p) :
    (BetweenHandlers p.1 → p.1.gFlagButtonPressed = true → TowardsReset p.1) ∧ p.2 ≤ 1 := by
  have hreach : device.Reach Any p.1 := Reach.of_addGhost h
  refine ⟨fun hbetween => ?_, ?_⟩
  · have hway := onItsWay_of_reach hreach
    unfold OnItsWay at hway
    rcases hbetween with hpc | hpc <;> rw [hpc] at hway <;> exact hway
  · have hfed : FedOnce p := by
      refine h.invariant_of_reach ⟨fun _ => rfl, nofun, Nat.zero_le 1⟩ ?_
      rintro ⟨d, feeds⟩ e ⟨d', feeds'⟩ hreach hfed - hstep
      obtain ⟨hdevice, rfl⟩ := addGhost_step_eq_some.mp hstep
      have hreach' : device.Reach Any (d, feeds).1 := Reach.of_addGhost hreach
      exact fedOnce_step (local_of_reach hreach') hfed hdevice
    exact hfed.once

end

/-- Main has tested the button just before the press. -/
theorem pressed_towardsReset_sample :
    ∃ p, (device.addGhost 0 noteFeed).Reach Any p ∧ TowardsReset p.1 ∧ p.2 ≤ 1 ∧ p.2 = 1 := by
  obtain ⟨p, hreach, hbetween, hpressed, hfeeds⟩ :=
    exists_reach_of_exec (M := device.addGhost 0 noteFeed) (C := Any)
      (P := fun p => BetweenHandlers p.1 ∧ p.1.gFlagButtonPressed = true ∧ p.2 = 1)
      (.replicate 19 (.main false) ++ .edge true :: .replicate 7 .workq ++ [.main false]) (by decide)
  have htheorem := pressed_towardsReset hreach
  exact ⟨p, hreach, htheorem.1 hbetween hpressed, htheorem.2, hfeeds⟩

end FwLoader.Threads
