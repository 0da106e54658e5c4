import FwLoader.Foundations.Rely

/-!
# The supercap at boot

On the first board revision a falling edge at the pin of the supercap says that the power goes down,
and the device powers itself off. `fwloader_gpio_input_init` enables the interrupt before it
registers the callback, so an edge in between is lost; `fwloader_supercap_init` reads the pin behind
it. Between any two calls the level may change as often as it likes.
-/

namespace FwLoader.Boot

open Foundations

/-! ## The code -/

/-- `GPIO_INT_DISABLE`, `GPIO_INT_EDGE_FALLING`, `GPIO_INT_EDGE_BOTH` and `GPIO_INT_LEVEL_HIGH` -/
inductive GpioIntFlags
  | disable
  | edgeFalling
  | edgeBoth
  | levelHigh
deriving DecidableEq

/-- `int_flags & GPIO_INT_ENABLE` -/
def GpioIntFlags.isEnable : GpioIntFlags → Bool
  | .disable => false
  | _ => true

/-- The calls for an input, and those of the power-off. -/
inductive SupercapCall
  | gpioIsReady
  | gpioPinConfigure (flags : UInt32)
  | gpioPinInterruptConfigure (flags : GpioIntFlags)
  | gpioAddCallback
  | gpioPinGet
  | fwloaderButtonCbDeinit
  | fwloaderLedDeinit
  | sysPoweroff

/-- The drivers and the kernel. -/
abbrev supercapApi : Interface where
  Call := SupercapCall
  Answer
    | .gpioIsReady => Bool
    | .gpioPinConfigure _ => Int32
    | .gpioPinInterruptConfigure _ => Int32
    | .gpioPinGet => Int32
    | _ => Unit

/-- `GPIO_INPUT` -/
def gpioInput : UInt32 := 0x10000

/-- `fwloader_gpio_input_init`, with `hasCallback` if neither `cb_handler` nor `p_gpio_callback` is
`NULL`. -/
def fwloaderGpioInputInit (extraFlags : UInt32) (hasCallback : Bool) (intFlags : GpioIntFlags) :
    Prog supercapApi Unit := do
  let ready ← @Prog.perform supercapApi .gpioIsReady
  if ready = false then pure ()
  else do
    let ret ← @Prog.perform supercapApi (.gpioPinConfigure (gpioInput ||| extraFlags))
    if ret ≠ 0 then pure ()
    else if intFlags.isEnable then do
      let ret ← @Prog.perform supercapApi (.gpioPinInterruptConfigure intFlags)
      if ret ≠ 0 then pure ()
      else if intFlags.isEnable ∧ hasCallback then @Prog.perform supercapApi .gpioAddCallback
      else pure ()
    else do
      let _ ← @Prog.perform supercapApi (.gpioPinInterruptConfigure .disable)
      pure ()

/-- `fwloader_on_supercap_active` -/
def fwloaderOnSupercapActive : Prog supercapApi Unit := do
  @Prog.perform supercapApi .fwloaderButtonCbDeinit
  @Prog.perform supercapApi .fwloaderLedDeinit
  let _ ← @Prog.perform supercapApi (.gpioPinInterruptConfigure .levelHigh)
  @Prog.perform supercapApi .sysPoweroff

/-- `fwloader_supercap_init` -/
def fwloaderSupercapInit : Prog supercapApi Unit := do
  fwloaderGpioInputInit 0 true .edgeFalling
  let rc ← @Prog.perform supercapApi .gpioPinGet
  if rc < 0 then pure ()
  else if rc ≠ 0 then fwloaderOnSupercapActive
  else pure ()

/-! ## The pin -/

/-- The level of the pin, its interrupt and whether the callback is registered, whether a call of
the driver has failed, and whether the device is powered off. -/
structure Supercap where
  isHigh : Bool
  intFlags : GpioIntFlags
  callback : Bool
  failed : Bool
  isOff : Bool

/-- The interrupt fires when the level changes. -/
def GpioIntFlags.fires (wasHigh isHigh : Bool) : GpioIntFlags → Bool
  | .disable => false
  | .edgeFalling => wasHigh && !isHigh
  | .edgeBoth => wasHigh != isHigh
  | .levelHigh => isHigh

namespace Supercap

/-- The pin after a reset. -/
def reset (isHigh : Bool) : Supercap := ⟨isHigh, .disable, false, false, false⟩

/-- The level changes. The callback is `fwloader_isr_cb_supercap_active`, which does not return. -/
def setLevel (s : Supercap) (isHigh : Bool) : Supercap :=
  { s with
    isHigh := isHigh
    isOff := s.isOff || s.callback && s.intFlags.fires s.isHigh isHigh }

/-- The supercap is active, by the polarity of the pin. -/
def IsActive (activeLow : Bool) (s : Supercap) : Prop := s.isHigh = !activeLow

instance (activeLow : Bool) : DecidablePred (IsActive activeLow) :=
  fun _ => inferInstanceAs (Decidable (_ = _))

/-- `gpio_pin_get_dt`, which may fail with a negative result. -/
def pinGet (activeLow : Bool) (s : Supercap) (rc : Int32) : Int32 :=
  if rc < 0 then rc else if s.IsActive activeLow then 1 else 0

/-- `gpio_pin_interrupt_configure_dt`. An interrupt on the level can fire at once. -/
def interruptConfigure (s : Supercap) (flags : GpioIntFlags) (ret : Int32) : Supercap :=
  if ret ≠ 0 then { s with failed := true }
  else { s with
    intFlags := flags
    isOff := s.isOff || s.callback && flags == .levelHigh && s.isHigh }

/-- The drivers answer as they like, as long as there is power. -/
def semantics (activeLow : Bool) : Semantics supercapApi Supercap (Oracle supercapApi) where
  answer s O
    | .gpioPinGet => if s.isOff then none else some (s.pinGet activeLow (O .gpioPinGet))
    | c => if s.isOff then none else some (O c)
  effect s
    | .gpioIsReady, ready => { s with failed := s.failed || !ready }
    | .gpioPinConfigure _, ret => { s with failed := s.failed || decide (ret ≠ 0) }
    | .gpioPinInterruptConfigure flags, ret => s.interruptConfigure flags ret
    | .gpioAddCallback, _ => { s with callback := true }
    | .gpioPinGet, rc => { s with failed := s.failed || decide (rc < 0) }
    | .fwloaderButtonCbDeinit, _ | .fwloaderLedDeinit, _ => s
    | .sysPoweroff, _ => { s with isOff := true }

/-- What the environment does to the pin. -/
def Changes (s s' : Supercap) : Prop := ∃ isHigh, s.setLevel isHigh = s'

/-- A call of the driver has failed, or the interrupt is on and has its callback. -/
def IsArmed (flags : GpioIntFlags) (s : Supercap) : Prop :=
  s.failed = true ∨ s.callback = true ∧ s.intFlags = flags

/-- If no call of the driver has failed, the device is off when the supercap is active. -/
def Noticed (activeLow : Bool) (s : Supercap) : Prop :=
  s.failed = false → s.IsActive activeLow → s.isOff = true

/-! ## What `fwloader_supercap_init` secures -/

section

variable {activeLow : Bool} {s s' : Supercap}

/-- The level does not matter to what the program has set. -/
theorem stable_intFlags (flags : GpioIntFlags) : Stable Changes fun s => s.intFlags = flags := by
  rintro s _ h ⟨isHigh, rfl⟩
  exact h

theorem stable_isArmed (flags : GpioIntFlags) : Stable Changes (IsArmed flags) := by
  rintro s _ h ⟨isHigh, rfl⟩
  exact h

theorem stable_failed : Stable Changes fun s => s.failed = true := by
  rintro s _ h ⟨isHigh, rfl⟩
  exact h

theorem stable_isOff : Stable Changes fun s => s.isOff = true := by
  rintro s _ h ⟨isHigh, rfl⟩
  show (s.isOff || _) = true
  rw [h, Bool.true_or]

/-- Once the interrupt has its callback, a falling edge powers the device off. -/
theorem stable_high_or_off : Stable Changes fun s => s.IsArmed .edgeFalling ∧
    (s.failed = false → s.isHigh = true ∨ s.isOff = true) := by
  rintro s _ ⟨harmed, hlevel⟩ ⟨isHigh, rfl⟩
  refine ⟨harmed, fun hfailed => ?_⟩
  cases isHigh with
  | true => exact .inl rfl
  | false =>
    right
    have hok : s.failed = false := hfailed
    obtain ⟨hcallback, hflags⟩ := harmed.resolve_left fun h => nomatch hok.symm.trans h
    show (s.isOff || s.callback && s.intFlags.fires s.isHigh false) = true
    rw [hcallback, hflags]
    rcases hlevel hfailed with hhigh | hoff
    · rw [hhigh]
      exact Bool.or_true _
    · rw [hoff, Bool.true_or]

/-- The interrupt is on and has its callback, unless a call of the driver has failed. -/
theorem fwloaderGpioInputInit_secures (extraFlags : UInt32) {flags : GpioIntFlags}
    (hflags : flags.isEnable = true) (s : Supercap) :
    Prog.Secures (semantics activeLow) Changes (fun _ => IsArmed flags)
      (fwloaderGpioInputInit extraFlags true flags) s := by
  have hfailed {s : Supercap} (h : s.failed = true) :
      Prog.Secures (semantics activeLow) Changes (fun _ => IsArmed flags) (pure ()) s :=
    Prog.Secures.pure (stable_isArmed flags) (.inl h) fun _ h => h
  refine Prog.Secures.perform_bind_any fun s₁ ready => Prog.Secures.ite (fun hready => ?_)
    fun _ => ?_
  · apply hfailed
    show (s₁.failed || !ready) = true
    rw [hready]
    exact Bool.or_true _
  refine Prog.Secures.perform_bind_any fun s₂ ret => Prog.Secures.ite (fun hret => ?_) fun _ => ?_
  · apply hfailed
    show (s₂.failed || decide (ret ≠ 0)) = true
    rw [decide_eq_true hret, Bool.or_true]
  rw [if_pos hflags]
  refine Prog.Secures.perform_bind_any fun s₃ ret => Prog.Secures.ite (fun hret => ?_)
    fun hret => ?_
  · exact hfailed (congrArg failed (if_pos hret))
  rw [if_pos ⟨hflags, rfl⟩]
  -- the interrupt is on, but until the callback is there an edge is lost
  have hon : (s₃.interruptConfigure flags ret).intFlags = flags := congrArg intFlags (if_neg hret)
  refine Prog.Secures.perform_bind (f := pure) (stable_intFlags flags) hon fun s₄ _ _ hs₄ _ => ?_
  exact Prog.Secures.pure (stable_isArmed flags) (.inr ⟨rfl, hs₄⟩) fun _ h => h

/-- A pin that is read as 0 is inactive. -/
theorem not_isActive_of_pinGet {rc : Int32} (h : s.pinGet activeLow rc = 0) :
    ¬s.IsActive activeLow := by
  intro hactive
  rw [pinGet, if_pos hactive] at h
  split at h
  · rename_i hneg
    rw [h] at hneg
    exact absurd hneg (by decide)
  · exact absurd h (by decide)

/-- The handler powers the device off. -/
theorem fwloaderOnSupercapActive_secures (s : Supercap) :
    Prog.Secures (semantics activeLow) Changes (fun _ s => s.isOff = true)
      fwloaderOnSupercapActive s := by
  refine Prog.Secures.perform_bind_any fun _ _ => Prog.Secures.perform_bind_any fun _ _ => ?_
  refine Prog.Secures.perform_bind_any fun _ _ => ?_
  refine Prog.Secures.perform_bind_any (f := pure) fun _ _ => ?_
  exact Prog.Secures.pure stable_isOff rfl fun _ h => h

/-- The pin is read when an edge can no longer be lost. -/
theorem fwloaderSupercapInit_secures (s : Supercap) :
    Prog.Secures (semantics true) Changes (fun _ => Noticed true) fwloaderSupercapInit s := by
  refine (fwloaderGpioInputInit_secures 0 rfl s).bind fun _ s₁ harmed => ?_
  refine Prog.Secures.perform_bind (stable_isArmed .edgeFalling) harmed
    fun s₂ O rc harmed' hanswer => ?_
  have hrc : s₂.pinGet true (O .gpioPinGet) = rc :=
    Option.some.inj (Option.ite_none_left_eq_some.mp hanswer).2
  refine Prog.Secures.ite (fun hneg => ?_) fun hnonneg =>
    Prog.Secures.ite (fun _ => ?_) fun hzero => ?_
  · have hfailed : (s₂.failed || decide (rc < 0)) = true := by
      rw [decide_eq_true hneg, Bool.or_true]
    exact Prog.Secures.pure (P := fun s => s.failed = true) stable_failed hfailed
      fun s' hs' hnot => absurd (hs'.symm.trans hnot) nofun
  · exact (fwloaderOnSupercapActive_secures _).mono fun _ _ hoff _ _ => hoff
  · -- the pin has been read as inactive, and each change from now on is noticed
    have hhigh : s₂.isHigh = true := by
      by_contra hlow
      exact not_isActive_of_pinGet (hrc.trans (not_not.mp hzero)) (Bool.eq_false_iff.mpr hlow)
    have hfailed : (s₂.failed || decide (rc < 0)) = s₂.failed := by
      rw [decide_eq_false hnonneg, Bool.or_false]
    refine Prog.Secures.pure stable_high_or_off ⟨?_, fun _ => .inl hhigh⟩
      fun s' hs' hok hactive => ?_
    · show (s₂.failed || decide (rc < 0)) = true ∨ _
      rw [hfailed]
      exact harmed'
    · exact (hs'.2 hok).resolve_left fun hhigh => nomatch hhigh.symm.trans hactive

end

/-- `fwloader_supercap_init` while the level changes. -/
def boot (activeLow isHigh : Bool) :
    System (Supercap × Prog supercapApi Unit) (Oracle supercapApi ⊕ Bool) :=
  fwloaderSupercapInit.amid (semantics activeLow) setLevel (reset isHigh)

/-- All calls of the drivers succeed. -/
def noFailure : Oracle supercapApi
  | .gpioIsReady => true
  | .gpioPinConfigure _ | .gpioPinInterruptConfigure _ | .gpioPinGet => (0 : Int32)
  | .gpioAddCallback | .fwloaderButtonCbDeinit | .fwloaderLedDeinit | .sysPoweroff => ()

/-- Unless a call of the driver fails, the device is off whenever the supercap is active behind
`fwloader_supercap_init`, however often and between whichever calls the level changes, exactly if
the pin is active low. -/
theorem noticed_iff_activeLow (activeLow : Bool) :
    (∀ isHigh q, (boot activeLow isHigh).Reach System.Any q → q.2.hasEnded = true →
      q.1.Noticed activeLow) ↔ activeLow = true := by
  constructor
  · intro h
    by_contra hhigh
    obtain rfl : activeLow = false := Bool.eq_false_iff.mpr hhigh
    -- the supercap becomes active behind the check, by a rising edge
    obtain ⟨q, hreach, hend, hok, hactive, hon⟩ := System.exists_reach_of_exec
      (M := boot false false) (C := System.Any)
      (P := fun q => q.2.hasEnded = true ∧ q.1.failed = false ∧ q.1.IsActive false ∧
        q.1.isOff = false)
      (.replicate 5 (.inl noFailure) ++ [.inr true]) (by decide)
    exact nomatch hon.symm.trans (h false q hreach hend hok hactive)
  · rintro rfl isHigh q hreach hend
    obtain ⟨-, hnoticed⟩ := Prog.secures_of_reach hreach (fwloaderSupercapInit_secures _) hend
    exact hnoticed

end Supercap

end FwLoader.Boot
