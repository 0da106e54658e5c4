import FwLoader.Boot.Supercap
import FwLoader.Halt.ErrorScreen
import FwLoader.Threads.Light

/-!
# The power-off by the supercap

On the first board revision the interrupt of the supercap switches the LEDs off and powers the
device off. It does not take the mutex and can interrupt each thread between any two calls, also
while the LEDs change from their GPIOs to the PWM channels. It does not return, so that nothing
comes after it.

`fwloader_on_supercap_active` is the program of `Boot`, with `fwloader_button_cb_deinit` of `Halt`
and `fwloader_led_deinit` in place of its calls of them. No call of a driver is made twice, and each
may fail.
-/

namespace FwLoader.Threads.PowerOff

open Foundations System

/-! ## The code -/

/-- What `fwloader_led_deinit` calls, and its test and its assignment of the flag. -/
inductive LedCall
  | gFwloaderLedInPwmMode
  | clearPwmMode
  | pwmSet (c : Color)
  | gpioPinSet (c : Color)
  | gpioDisconnect (c : Color)

/-- The drivers of the LEDs. -/
abbrev ledApi : Interface where
  Call := LedCall
  Answer
    | .gFwloaderLedInPwmMode => Bool
    | .clearPwmMode => Unit
    | _ => Int32

/-- `fwloader_led_deinit_pwm` -/
def fwloaderLedDeinitPwm (c : Color) : Prog ledApi Unit := do
  let inPwmMode ← @Prog.perform ledApi .gFwloaderLedInPwmMode
  if inPwmMode = true then do
    let _ ← @Prog.perform ledApi (.pwmSet c)
    pure ()
  else pure ()

/-- `fwloader_led_deinit_gpio`. An error is only logged. -/
def fwloaderLedDeinitGpio (c : Color) : Prog ledApi Unit := do
  let _ ← @Prog.perform ledApi (.gpioPinSet c)
  let _ ← @Prog.perform ledApi (.gpioDisconnect c)
  pure ()

/-- `fwloader_led_deinit` -/
def fwloaderLedDeinit : Prog ledApi Unit := do
  fwloaderLedDeinitPwm .red
  fwloaderLedDeinitPwm .green
  @Prog.perform ledApi .clearPwmMode
  fwloaderLedDeinitGpio .red
  fwloaderLedDeinitGpio .green

/-- The drivers of the button, of the LEDs and of the supercap. -/
abbrev powerOffApi : Interface := (Halt.screenApi.sum ledApi).sum Boot.supercapApi

/-- What stands behind the calls of `fwloader_on_supercap_active`. -/
def callees : (c : Boot.supercapApi.Call) → Prog powerOffApi (Boot.supercapApi.Answer c)
  | .fwloaderButtonCbDeinit => Halt.fwloaderButtonCbDeinit.inl.inl
  | .fwloaderLedDeinit => fwloaderLedDeinit.inr.inl
  | c => @Prog.perform powerOffApi (Sum.inr c)

/-- `fwloader_on_supercap_active`, down to the drivers -/
def fwloaderOnSupercapActive : Prog powerOffApi Unit :=
  Boot.fwloaderOnSupercapActive.interpret callees

/-! ## The drivers -/

section

variable (O : Oracle powerOffApi) (c : Color)

/-- What `device_is_ready` says of the port of the button. -/
def buttonIsReady : Bool := O (Sum.inl (Sum.inl .deviceIsReady))

/-- The result of switching the interrupt of the button off. -/
def buttonIntRc : ℤ := O (Sum.inl (Sum.inl .gpioPinInterruptDisable))

/-- The result of `pwm_set_dt`. -/
def pwmSetRc : Int32 := O (Sum.inl (Sum.inr (.pwmSet c)))

/-- The result of `gpio_pin_set_dt`. -/
def gpioPinSetRc : Int32 := O (Sum.inl (Sum.inr (.gpioPinSet c)))

/-- The result of `gpio_pin_configure_dt` with `GPIO_DISCONNECTED`. -/
def gpioDisconnectRc : Int32 := O (Sum.inl (Sum.inr (.gpioDisconnect c)))

/-- A call with its result. One that fails leaves the LED as it was. -/
def attempt (rc : Int32) (f : Led → Led) (l : Led) : Led := if rc = 0 then f l else l

/-- The driver of the button. -/
def buttonDriver : Handler Halt.screenApi Device where
  answer _ c := O (Sum.inl (Sum.inl c))
  next d
    | .gpioPinInterruptDisable => if buttonIntRc O = 0 then { d with buttonInt := false } else d
    | _ => d

/-- The drivers of the LEDs. -/
def ledDriver : Handler ledApi Device where
  answer d
    | .gFwloaderLedInPwmMode => d.gFwloaderLedInPwmMode
    | c => O (Sum.inl (Sum.inr c))
  next d
    | .gFwloaderLedInPwmMode => d
    | .clearPwmMode => { d with gFwloaderLedInPwmMode := false }
    | .pwmSet c => d.updateLed c (attempt (pwmSetRc O c) (·.pwmSet false))
    | .gpioPinSet c => d.updateLed c (attempt (gpioPinSetRc O c) (·.gpioPinSet false))
    | .gpioDisconnect c => d.updateLed c (attempt (gpioDisconnectRc O c) .gpioDisconnect)

/-- The drivers, which answer as they like. -/
def drivers : Handler powerOffApi Device :=
  ((buttonDriver O).both (ledDriver O)).sum fun c => O (Sum.inr c)

end

/-! ## What they leave -/

section

variable {O : Oracle powerOffApi} {d : Device} {c c' : Color}

/-- The button loses its interrupt, and the LEDs stay as they are. -/
theorem run_fwloaderButtonCbDeinit :
    (Halt.fwloaderButtonCbDeinit.run (buttonDriver O) d).2 =
      if buttonIsReady O = true ∧ buttonIntRc O = 0 then { d with buttonInt := false } else d := by
  have hready : (Halt.fwloaderButtonCbDeinit.run (buttonDriver O) d).2 =
      if buttonIsReady O = false then d
      else if buttonIntRc O = 0 then { d with buttonInt := false } else d := by
    unfold Halt.fwloaderButtonCbDeinit Halt.fwloaderButtonDeinit
    rw [Prog.run_bind, Prog.run_ite, apply_ite Prod.snd]
    rfl
  rw [hready]
  cases buttonIsReady O <;> simp

theorem run_fwloaderLedDeinitPwm :
    ((fwloaderLedDeinitPwm c).run (ledDriver O) d).2 =
      if d.gFwloaderLedInPwmMode = true then
        d.updateLed c (attempt (pwmSetRc O c) (·.pwmSet false))
      else d := by
  unfold fwloaderLedDeinitPwm
  rw [Prog.run_bind, Prog.run_ite, apply_ite Prod.snd]
  rfl

theorem run_fwloaderLedDeinitPwm_leds :
    ((fwloaderLedDeinitPwm c').run (ledDriver O) d).2.leds c =
      if d.gFwloaderLedInPwmMode = true ∧ c = c' then
        attempt (pwmSetRc O c) (·.pwmSet false) (d.leds c)
      else d.leds c := by
  rw [run_fwloaderLedDeinitPwm]
  by_cases hmode : d.gFwloaderLedInPwmMode = true
  · rw [if_pos hmode, updateLed_leds]
    by_cases hc : c = c'
    · rw [if_pos hc, if_pos ⟨hmode, hc⟩, hc]
    · rw [if_neg hc, if_neg fun h => hc h.2]
  · rw [if_neg hmode, if_neg fun h => hmode h.1]

theorem run_fwloaderLedDeinitPwm_mode :
    ((fwloaderLedDeinitPwm c).run (ledDriver O) d).2.gFwloaderLedInPwmMode =
      d.gFwloaderLedInPwmMode := by
  rw [run_fwloaderLedDeinitPwm]
  split <;> rfl

theorem run_fwloaderLedDeinitGpio_leds :
    ((fwloaderLedDeinitGpio c').run (ledDriver O) d).2.leds c =
      if c = c' then attempt (gpioDisconnectRc O c) .gpioDisconnect
        (attempt (gpioPinSetRc O c) (·.gpioPinSet false) (d.leds c))
      else d.leds c := by
  have hrun : ((fwloaderLedDeinitGpio c').run (ledDriver O) d).2 =
      (d.updateLed c' (attempt (gpioPinSetRc O c') (·.gpioPinSet false))).updateLed c'
        (attempt (gpioDisconnectRc O c') .gpioDisconnect) := rfl
  rw [hrun, updateLed_leds, updateLed_leds]
  by_cases hc : c = c'
  · rw [if_pos hc, if_pos hc, if_pos hc, hc]
  · rw [if_neg hc, if_neg hc, if_neg hc]

/-- An LED behind `fwloader_led_deinit`. -/
def deinitLed (O : Oracle powerOffApi) (inPwmMode : Bool) (c : Color) (l : Led) : Led :=
  attempt (gpioDisconnectRc O c) .gpioDisconnect
    (attempt (gpioPinSetRc O c) (·.gpioPinSet false)
      (if inPwmMode = true then attempt (pwmSetRc O c) (·.pwmSet false) l else l))

theorem run_fwloaderLedDeinit_leds :
    (fwloaderLedDeinit.run (ledDriver O) d).2.leds c =
      deinitLed O d.gFwloaderLedInPwmMode c (d.leds c) := by
  have hclear (d : Device) :
      ((@Prog.perform ledApi .clearPwmMode).run (ledDriver O) d).2.leds = d.leds := rfl
  unfold fwloaderLedDeinit deinitLed
  simp only [Prog.run_bind, run_fwloaderLedDeinitGpio_leds, hclear, run_fwloaderLedDeinitPwm_leds,
    run_fwloaderLedDeinitPwm_mode]
  -- of the two calls of each function, one is about this LED
  cases c <;> cases d.gFwloaderLedInPwmMode <;> simp

theorem isOn_deinitLed {inPwmMode : Bool} {l : Led} (hpwm : inPwmMode = false → l.pwm = false) :
    (deinitLed O inPwmMode c l).isOn = true ↔
      l.pwm = true ∧ pwmSetRc O c ≠ 0 ∨
      (l.configured = true ∧ l.level = true) ∧ gpioPinSetRc O c ≠ 0 ∧ gpioDisconnectRc O c ≠ 0 := by
  unfold deinitLed attempt
  cases inPwmMode with
  | true =>
    split_ifs <;> simp_all [Led.isOn, Led.gpioDisconnect, Led.gpioPinSet, Led.pwmSet, or_comm]
  | false =>
    -- before the mode is on, no PWM channel has a pulse
    have hoff : l.pwm = false := hpwm rfl
    split_ifs <;> simp_all [Led.isOn, Led.gpioDisconnect, Led.gpioPinSet]

theorem configured_deinitLed {inPwmMode : Bool} {l : Led} :
    (deinitLed O inPwmMode c l).configured = true ↔
      l.configured = true ∧ gpioDisconnectRc O c ≠ 0 := by
  have hset (l : Led) :
      (attempt (gpioPinSetRc O c) (·.gpioPinSet false) l).configured = l.configured := by
    rw [attempt]
    split <;> rfl
  have hpwm (l : Led) :
      (attempt (pwmSetRc O c) (·.pwmSet false) l).configured = l.configured := by
    rw [attempt]
    split <;> rfl
  have hfront : (attempt (gpioPinSetRc O c) (·.gpioPinSet false) (if inPwmMode = true then
      attempt (pwmSetRc O c) (·.pwmSet false) l else l)).configured = l.configured := by
    rw [hset]
    split
    · exact hpwm l
    · rfl
  rw [deinitLed, attempt, ← hfront]
  split
  · rename_i hrc
    exact ⟨nofun, fun h => absurd hrc h.2⟩
  · rename_i hrc
    exact (and_iff_left hrc).symm

theorem run_fwloaderLedDeinit_buttonInt :
    (fwloaderLedDeinit.run (ledDriver O) d).2.buttonInt = d.buttonInt := by
  have hpwm (c : Color) (d : Device) :
      ((fwloaderLedDeinitPwm c).run (ledDriver O) d).2.buttonInt = d.buttonInt := by
    rw [run_fwloaderLedDeinitPwm]
    split <;> rfl
  have hclear (d : Device) :
      ((@Prog.perform ledApi .clearPwmMode).run (ledDriver O) d).2.buttonInt = d.buttonInt := rfl
  have hgpio (c : Color) (d : Device) :
      ((fwloaderLedDeinitGpio c).run (ledDriver O) d).2.buttonInt = d.buttonInt := rfl
  unfold fwloaderLedDeinit
  simp only [Prog.run_bind, hgpio, hclear, hpwm]

/-- The button first, then the LEDs; the supercap and the power are not seen here. -/
theorem run_fwloaderOnSupercapActive :
    (fwloaderOnSupercapActive.run (drivers O) d).2 =
      (fwloaderLedDeinit.run (ledDriver O)
        (Halt.fwloaderButtonCbDeinit.run (buttonDriver O) d).2).2 := by
  have hbutton : ((drivers O).through callees).next d Boot.SupercapCall.fwloaderButtonCbDeinit =
      (Halt.fwloaderButtonCbDeinit.run (buttonDriver O) d).2 := by
    show (Halt.fwloaderButtonCbDeinit.inl.inl.run (drivers O) d).2 = _
    rw [Prog.run_inl, Prog.run_inl, drivers, Handler.left_sum, Handler.left_both]
  have hled (d : Device) :
      ((drivers O).through callees).next d Boot.SupercapCall.fwloaderLedDeinit =
        (fwloaderLedDeinit.run (ledDriver O) d).2 := by
    show (fwloaderLedDeinit.inr.inl.run (drivers O) d).2 = _
    rw [Prog.run_inl, Prog.run_inr, drivers, Handler.left_sum, Handler.right_both]
  have hint (d : Device) : ((drivers O).through callees).next d
      (Boot.SupercapCall.gpioPinInterruptConfigure .levelHigh) = d := rfl
  have hpoweroff (d : Device) :
      ((drivers O).through callees).next d Boot.SupercapCall.sysPoweroff = d := rfl
  unfold fwloaderOnSupercapActive Boot.fwloaderOnSupercapActive
  rw [Prog.run_interpret, Prog.run_bind, Prog.run_bind, Prog.run_bind, Prog.run_perform,
    Prog.run_perform, Prog.run_perform, Prog.run_perform]
  dsimp only
  rw [hpoweroff, hint, hled, hbutton]

theorem exists_trace_fwloaderOnSupercapActive : ∃ es,
    fwloaderOnSupercapActive.trace (drivers O) d = es ++ [⟨Sum.inr .sysPoweroff, ()⟩] := by
  have hcode : fwloaderOnSupercapActive = (do
      callees .fwloaderButtonCbDeinit
      callees .fwloaderLedDeinit
      let _ ← callees (.gpioPinInterruptConfigure .levelHigh)
      @Prog.perform powerOffApi (Sum.inr .sysPoweroff)) := rfl
  rw [hcode, Prog.trace_bind, Prog.trace_bind, Prog.trace_bind, ← List.append_assoc,
    ← List.append_assoc]
  exact ⟨_, rfl⟩

end

/-- Whatever the threads are doing, whoever has the mutex, however far the LEDs are initialised and
whatever the drivers answer, the last call is that of `sys_poweroff`. An LED gives light there
exactly if it has done so through its PWM channel and the channel could not be switched off, or
through its GPIO and the pin could be neither cleared nor disconnected. -/
theorem poweroff_exact (O : Oracle powerOffApi) (d : Device) (h : device.Reach Any d) :
    let off := (fwloaderOnSupercapActive.run (drivers O) d).2
    (∃ es, fwloaderOnSupercapActive.trace (drivers O) d = es ++ [⟨Sum.inr .sysPoweroff, ()⟩]) ∧
    (∀ c, ((off.leds c).isOn = true ↔
        (d.leds c).pwm = true ∧ pwmSetRc O c ≠ 0 ∨
        ((d.leds c).configured = true ∧ (d.leds c).level = true) ∧
          gpioPinSetRc O c ≠ 0 ∧ gpioDisconnectRc O c ≠ 0) ∧
      ((off.leds c).configured = true ↔
        (d.leds c).configured = true ∧ gpioDisconnectRc O c ≠ 0)) ∧
    (off.buttonInt = true ↔
      d.buttonInt = true ∧ (buttonIsReady O = false ∨ buttonIntRc O ≠ 0)) := by
  have hmain : MainLocal d := local_of_reach h .main
  intro off
  have hoff : off = (fwloaderLedDeinit.run (ledDriver O)
      (Halt.fwloaderButtonCbDeinit.run (buttonDriver O) d).2).2 := run_fwloaderOnSupercapActive
  rw [run_fwloaderButtonCbDeinit] at hoff
  refine ⟨exists_trace_fwloaderOnSupercapActive, fun c => ?_, ?_⟩
  · have hleds : off.leds c = deinitLed O d.gFwloaderLedInPwmMode c (d.leds c) := by
      rw [hoff, run_fwloaderLedDeinit_leds]
      split <;> rfl
    rw [hleds]
    exact ⟨isOn_deinitLed fun hmode => hmain.pwm hmode c, configured_deinitLed⟩
  · rw [hoff, run_fwloaderLedDeinit_buttonInt]
    cases buttonIsReady O <;> by_cases hrc : buttonIntRc O = 0 <;> simp [hrc]

/-- All calls of the drivers succeed, but for those of `failing`. -/
def succeeding (failing : Color → Bool) : Oracle powerOffApi
  | .inl (.inl .deviceIsReady) => true
  | .inl (.inl .gpioPinInterruptDisable) | .inl (.inl .gpioPinDisconnect)
  | .inl (.inl .gpioPinGet) => (0 : ℤ)
  | .inl (.inl .gpioRemoveCallback) | .inl (.inl (.kMsleep _)) | .inl (.inl .ledRedOn)
  | .inl (.inl .ledRedOff) | .inl (.inl .ledGreenOff) | .inl (.inl .sysReboot) => ()
  | .inl (.inr .gFwloaderLedInPwmMode) => false
  | .inl (.inr .clearPwmMode) => ()
  | .inl (.inr (.pwmSet c)) => if failing c then (-5 : Int32) else 0
  | .inl (.inr (.gpioPinSet _)) | .inl (.inr (.gpioDisconnect _)) => (0 : Int32)
  | .inr c => Boot.Supercap.noFailure c

/-- The handler of a press is interrupted when it has switched both LEDs on, and the PWM channel of
the red one cannot be switched off. -/
theorem poweroff_exact_sample :
    ∃ d, device.Reach Any d ∧ d.gFwloaderLedMutex = some .workq ∧
      d.buttonInt = true ∧ (∀ c, (d.leds c).isOn = true) ∧
      let off := (fwloaderOnSupercapActive.run (drivers (succeeding (· = .red))) d).2
      off.buttonInt = false ∧ (off.leds .red).isOn = true ∧ (off.leds .green).isOn = false := by
  obtain ⟨d, hreach, howner, hint, hred, hgreen, hpwm, hconf⟩ :=
    exists_reach_of_exec (M := device) (C := Any)
      (P := fun d => d.gFwloaderLedMutex = some .workq ∧ d.buttonInt = true ∧
        (d.leds .red).isOn = true ∧ (d.leds .green).isOn = true ∧ (d.leds .red).pwm = true ∧
        (d.leds .green).configured = false)
      (.replicate 17 (.main false) ++ .edge true :: .replicate 6 .workq) (by decide)
  obtain ⟨-, hleds, hbutton⟩ := poweroff_exact (succeeding (· = .red)) d hreach
  refine ⟨d, hreach, howner, hint, fun c => ?_, ?_, ?_, ?_⟩
  · cases c with
    | red => exact hred
    | green => exact hgreen
  · rw [← Bool.not_eq_true, hbutton]
    exact fun h => h.2.elim nofun fun h => h rfl
  · exact (hleds .red).1.mpr (.inl ⟨hpwm, by decide⟩)
  · rw [← Bool.not_eq_true, (hleds .green).1]
    rintro (⟨-, h⟩ | ⟨⟨h, -⟩, -⟩)
    · exact h rfl
    · exact nomatch hconf.symm.trans h

end FwLoader.Threads.PowerOff
