import FwLoader.Threads.Interference

/-!
# What the calls do to the light

An LED that is off stays off under all calls but one that switches it on, a call that switches it
off does so in both modes, and a call that switches it on does so in the PWM mode or as long as its
GPIO is an output. Main switches no LED any more from the start of advertising on, but for its one
call with the mutex.
-/

namespace FwLoader.Threads

section

variable {d d' : Device} {t : Thread} {k : Call} {c : Color}

/-- All calls but one leave an LED that is off as it is. -/
theorem isOn_effect_of_off (hoff : (d.leds c).isOn = false) (hk : k ≠ .ledSet c true) :
    ((d.effect t k).leds c).isOn = false := by
  have hpwm : (d.leds c).pwm = false := (Bool.or_eq_false_iff.mp hoff).2
  have hgpio : ((d.leds c).configured && (d.leds c).level) = false :=
    (Bool.or_eq_false_iff.mp hoff).1
  rw [effect_leds]
  cases k with
  | ledInitGpio c' | gpioPinSet c' | gpioDisconnect c' | pwmSet c' =>
    rw [Call.onLed]
    split
    · simp [Led.isOn, Led.initGpio, Led.gpioPinSet, Led.gpioDisconnect, Led.pwmSet, hpwm, hgpio]
    · exact hoff
  | ledSet c' isOn =>
    rw [Call.onLed]
    split
    · rename_i hc
      obtain rfl : isOn = false := by
        cases isOn with
        | false => rfl
        | true => exact absurd (by rw [hc]) hk
      rw [Led.set]
      split <;> simp [Led.isOn, Led.gpioPinSet, Led.pwmSet, hpwm, hgpio]
    · exact hoff
  | _ => exact hoff

/-- In the PWM mode the GPIOs are disconnected. -/
theorem MainLocal.configured_of_mode (h : MainLocal d) (hmode : d.gFwloaderLedInPwmMode = true) :
    (d.leds c).configured = false := by
  by_contra hconf
  have hdone := ((h.configured c).mp (by simpa using hconf)).2
  have hdone' := h.mode.mp hmode
  refine hdone (Nat.lt_trans ?_ hdone')
  cases c <;> decide

theorem isOn_ledSet_false (t : Thread) (h : MainLocal d) :
    ((d.effect t (.ledSet c false)).leds c).isOn = false := by
  rw [effect_leds, Call.onLed, if_pos rfl, Led.set]
  cases hmode : d.gFwloaderLedInPwmMode with
  | true => simp [Led.isOn, Led.pwmSet, h.configured_of_mode hmode]
  | false => simp [Led.isOn, Led.gpioPinSet, h.pwm hmode c]

theorem isOn_ledSet_true (t : Thread)
    (h : d.gFwloaderLedInPwmMode = true ∨ (d.leds c).configured = true) :
    ((d.effect t (.ledSet c true)).leds c).isOn = true := by
  rw [effect_leds, Call.onLed, if_pos rfl, Led.set]
  split
  · simp [Led.isOn, Led.pwmSet]
  · rename_i hmode
    simp [Led.isOn, Led.gpioPinSet, h.resolve_left hmode]

theorem leds_ledSet_of_ne {c' : Color} {isOn : Bool} (hc : c ≠ c') :
    (d.effect t (.ledSet c' isOn)).leds c = d.leds c := by
  rw [effect_leds, Call.onLed, if_neg hc]

/-- After start-up, main switches LEDs only where it has the mutex. -/
theorem leds_main_of_done (hk : d.main.call = some k)
    (hdone : MainPc.Done .startSmpBluetoothAdverts d.main) (hpc : d.main ≠ .redOn) :
    (d.effect .main k).leds = d.leds := by
  cases hmain : d.main with
  | rebooting => exact nomatch hmain ▸ hk
  | redOn => exact absurd hmain hpc
  | ledInitGpio c | gpioPinSet c | gpioDisconnect c | pwmSet c =>
    rw [hmain] at hdone
    cases c <;> exact absurd hdone (by decide)
  | redSetTrue | redSetFalse =>
    rw [hmain] at hdone
    exact absurd hdone (by decide)
  | _ =>
    rw [hmain] at hk
    obtain rfl := Option.some.inj hk
    rfl

/-- Main does not switch the green LED on. -/
theorem MainPc.call_ne_greenOn {pc : MainPc} (hk : pc.call = some k) : k ≠ .ledSet .green true := by
  cases pc with
  | rebooting => exact nomatch hk
  | _ =>
    obtain rfl := Option.some.inj hk
    simp

/-- Outside of the threads only the work queue changes. -/
theorem device_step_isr {e : Event} (he : e.thread = .isr) (hstep : device.step d e = some d') :
    ∃ work, d' = { d with work := work } := by
  cases e with
  | btReady err =>
    obtain ⟨-, hnext⟩ := Option.ite_none_right_eq_some.mp hstep
    obtain rfl := Option.some.inj hnext
    unfold Device.btReady
    split
    · exact ⟨d.work, rfl⟩
    · exact ⟨_, rfl⟩
  | edge isPressed =>
    obtain ⟨-, hnext⟩ := Option.ite_none_right_eq_some.mp hstep
    obtain rfl := Option.some.inj hnext
    exact ⟨_, rfl⟩
  | expire w =>
    obtain ⟨work, -, rfl⟩ := Option.map_eq_some_iff.mp hstep
    exact ⟨work, rfl⟩
  | _ => exact nomatch he

end

end FwLoader.Threads
