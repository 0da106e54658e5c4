import FwLoader.Foundations.Protocols
import FwLoader.Mgmt.Uploads

/-!
# The RGB LED

The main thread drives the RGB LED through the controller LP5810, either by the currents and pulse
widths of its channels or by an animation, which the controller plays on its own and which has to be
enabled and configured for each channel before it is started. `ledProtocol` is the order of calls
that the controller is driven in.
-/

namespace FwLoader.Main

open Foundations Mgmt

/-! ## What main calls -/

/-- `fwloader_rgb_led_currents_t` -/
structure RgbLedCurrents where
  currentRed : UInt8
  currentGreen : UInt8
  currentBlue : UInt8
deriving DecidableEq

/-- `fwloader_rgb_led_pwms_t` -/
structure RgbLedPwms where
  pwmRed : UInt8
  pwmGreen : UInt8
  pwmBlue : UInt8
deriving DecidableEq

/-- An engine of `lp5810_auto_animation_cfg_t`: `aeu<i>_pwm`, `aeu<i>_t12`, `aeu<i>_t34` and
`aeu<i>_playback`. -/
structure AnimationEngine where
  pwm : List UInt8
  t12 : UInt8
  t34 : UInt8
  playback : UInt8
deriving DecidableEq

/-- `lp5810_auto_animation_cfg_t` -/
structure AutoAnimationCfg where
  autoPause : UInt8
  autoPlayback : UInt8
  aeu1 : AnimationEngine
  aeu2 : AnimationEngine
  aeu3 : AnimationEngine
deriving DecidableEq

/-- The calls of the main thread. -/
inductive MainCall
  | deviceIsReady
  | ledWriteChannels (startChannel : ℕ) (buf : List UInt8)
  | checkAndReinitIfNeeded
  | autoAnimationEnable (buf : List UInt8)
  | autoAnimationConfigure (i : ℕ) (cfg : AutoAnimationCfg)
  | autoAnimationStart
  | fsStat (path : CString) (gFsDirEntry : FsDirEntryType)
  | flagRebootRequested
  | setFlagRebootRequested
  | buttonIsPressed
  | btIsConnected
  | isUploadingInProgress
  | watchdogFeed
  | watchdogForceTrigger
  | kSleep (ms : ℕ)
deriving DecidableEq

/-- The drivers, the kernel and the variables that main shares with other threads. `fs_stat` stores
the entry that it is given. -/
abbrev mainApi : Interface where
  Call := MainCall
  Answer
    | .deviceIsReady => Bool
    | .ledWriteChannels _ _ => Int32
    | .checkAndReinitIfNeeded => Bool
    | .autoAnimationEnable _ => Bool
    | .autoAnimationConfigure _ _ => Bool
    | .autoAnimationStart => Bool
    | .fsStat _ _ => Int32 × FsDirEntryType
    | .flagRebootRequested => Bool
    | .buttonIsPressed => Bool
    | .btIsConnected => Bool
    | .isUploadingInProgress => Bool
    | _ => Unit

/-! ## The driver -/

/-- `fwloader_rgb_led_is_lp5810_ready` -/
def fwloaderRgbLedIsLp5810Ready : Prog mainApi Bool := @Prog.perform mainApi .deviceIsReady

/-- `led_write_channels` -/
def ledWriteChannels (startChannel : ℕ) (buf : List UInt8) : Prog mainApi Int32 :=
  @Prog.perform mainApi (.ledWriteChannels startChannel buf)

/-- `LED_RGB_CHANNEL_CURRENT_START` -/
def ledRgbChannelCurrentStart : ℕ := 0

/-- `fwloader_rgb_led_set_raw_currents_and_pwms` -/
def fwloaderRgbLedSetRawCurrentsAndPwms (pRgbLedCurrents : RgbLedCurrents)
    (pRgbLedPwms : RgbLedPwms) : Prog mainApi Bool := do
  let res ← ledWriteChannels ledRgbChannelCurrentStart
    [pRgbLedCurrents.currentRed, pRgbLedCurrents.currentGreen, pRgbLedCurrents.currentBlue,
      pRgbLedPwms.pwmRed, pRgbLedPwms.pwmGreen, pRgbLedPwms.pwmBlue]
  if 0 ≠ res then pure false else pure true

/-- `lp5810_check_and_reinit_if_needed` -/
def lp5810CheckAndReinitIfNeeded : Prog mainApi Bool :=
  @Prog.perform mainApi .checkAndReinitIfNeeded

/-- `fwloader_rgb_led_check_and_reinit_if_needed` -/
def fwloaderRgbLedCheckAndReinitIfNeeded : Prog mainApi Bool := do
  let ready ← fwloaderRgbLedIsLp5810Ready
  if ready = false then pure false else lp5810CheckAndReinitIfNeeded

/-- `AUTO_ANIMATION_NUM_LED_CHANNELS` -/
def autoAnimationNumLedChannels : ℕ := 3

/-- `anim_cfg` -/
def animCfg : AutoAnimationCfg where
  autoPause := 0
  autoPlayback := 0x0F
  aeu1 := ⟨[0, 255, 0, 0, 0], 0x44, 0x00, 0x03⟩
  aeu2 := ⟨[0, 0, 0, 0, 0], 0, 0, 0⟩
  aeu3 := ⟨[0, 0, 0, 0, 0], 0, 0, 0⟩

/-- A round of the loop over the channels. -/
def configureChannel (i : ℕ) : Prog mainApi (ℕ ⊕ Bool) := do
  let ok ← @Prog.perform mainApi (.autoAnimationConfigure i animCfg)
  if ok = false then pure (.inr false) else pure (.inl (i + 1))

/-- What follows the loop: it was left by a failure, or the animation is started. -/
def startAutoAnimation : ℕ ⊕ Bool → Prog mainApi Bool
  | .inl _ => do
    let ok ← @Prog.perform mainApi .autoAnimationStart
    if ok = false then pure false else pure true
  | .inr res => pure res

/-- `fwloader_rgb_led_turn_on_animation_blinking_white` -/
def fwloaderRgbLedTurnOnAnimationBlinkingWhite (pCurrents : RgbLedCurrents) :
    Prog mainApi Bool := do
  let enabled ← @Prog.perform mainApi (.autoAnimationEnable
    [pCurrents.currentRed, pCurrents.currentGreen, pCurrents.currentBlue])
  if enabled = false then pure false
  else Prog.times configureChannel autoAnimationNumLedChannels 0 >>= startAutoAnimation

/-! ## Calls of drivers -/

/-- The calls of the controller and of the file system. -/
def MainCall.isDriver : MainCall → Bool
  | .deviceIsReady | .ledWriteChannels _ _ | .checkAndReinitIfNeeded | .autoAnimationEnable _
  | .autoAnimationConfigure _ _ | .autoAnimationStart | .fsStat _ _ => true
  | _ => false

/-- A program calls nothing but drivers. -/
abbrev OnlyDrivers {α : Type} (p : Prog mainApi α) : Prop :=
  p.OnlyCalls fun c => MainCall.isDriver c = true

theorem fwloaderRgbLedSetRawCurrentsAndPwms_onlyDrivers (pRgbLedCurrents : RgbLedCurrents)
    (pRgbLedPwms : RgbLedPwms) :
    OnlyDrivers (fwloaderRgbLedSetRawCurrentsAndPwms pRgbLedCurrents pRgbLedPwms) :=
  Prog.onlyCalls_perform_bind rfl fun _ => Prog.onlyCalls_ite (fun _ => trivial) fun _ => trivial

theorem fwloaderRgbLedCheckAndReinitIfNeeded_onlyDrivers :
    OnlyDrivers fwloaderRgbLedCheckAndReinitIfNeeded :=
  Prog.onlyCalls_perform_bind rfl fun _ =>
    Prog.onlyCalls_ite (fun _ => trivial) fun _ => ⟨rfl, fun _ => trivial⟩

theorem fwloaderRgbLedTurnOnAnimationBlinkingWhite_onlyDrivers (pCurrents : RgbLedCurrents) :
    OnlyDrivers (fwloaderRgbLedTurnOnAnimationBlinkingWhite pCurrents) := by
  refine Prog.onlyCalls_perform_bind rfl fun _ => Prog.onlyCalls_ite (fun _ => trivial) fun _ => ?_
  refine Prog.OnlyCalls.bind (Prog.OnlyCalls.times (fun _ => ?_) _ _) ?_
  · exact Prog.onlyCalls_perform_bind rfl fun _ =>
      Prog.onlyCalls_ite (fun _ => trivial) fun _ => trivial
  · rintro (_ | _)
    · exact Prog.onlyCalls_perform_bind rfl fun _ =>
        Prog.onlyCalls_ite (fun _ => trivial) fun _ => trivial
    · trivial

/-! ## The protocol of the controller -/

/-- How far the controller has been driven. -/
inductive LedMode
  /-- The channels are written. -/
  | manual
  /-- The animation is enabled, and so many channels are configured for it. -/
  | enabled (channels : ℕ)
  /-- The animation plays. -/
  | playing
  /-- A call for the animation has failed. -/
  | failed
  /-- The watchdog resets the device. -/
  | reset
deriving DecidableEq

/-- The channels are written before an animation is enabled only, the channels are configured one
after the other, the animation is started when all of them are, a failure is not followed by another
call of the controller, and the reset by no call at all. -/
def ledProtocol : Protocol mainApi LedMode where
  step
    | .reset, _ => none
    | .manual, ⟨.ledWriteChannels _ _, _⟩ => some .manual
    | _, ⟨.ledWriteChannels _ _, _⟩ => none
    | .manual, ⟨.checkAndReinitIfNeeded, _⟩ => some .manual
    | _, ⟨.checkAndReinitIfNeeded, _⟩ => none
    | .manual, ⟨.autoAnimationEnable _, ok⟩ => some (if ok = true then .enabled 0 else .failed)
    | _, ⟨.autoAnimationEnable _, _⟩ => none
    | .enabled n, ⟨.autoAnimationConfigure i _, ok⟩ =>
      if i = n ∧ n < autoAnimationNumLedChannels then
        some (if ok = true then .enabled (n + 1) else .failed)
      else none
    | _, ⟨.autoAnimationConfigure _ _, _⟩ => none
    | .enabled n, ⟨.autoAnimationStart, ok⟩ =>
      if n = autoAnimationNumLedChannels then some (if ok = true then .playing else .failed)
      else none
    | _, ⟨.autoAnimationStart, _⟩ => none
    | _, ⟨.watchdogForceTrigger, _⟩ => some .reset
    | mode, _ => some mode

/-! ## The driver keeps to it -/

theorem fwloaderRgbLedSetRawCurrentsAndPwms_follows (pRgbLedCurrents : RgbLedCurrents)
    (pRgbLedPwms : RgbLedPwms) :
    Prog.Follows ledProtocol (fun _ mode => mode = .manual) .manual
      (fwloaderRgbLedSetRawCurrentsAndPwms pRgbLedCurrents pRgbLedPwms) := by
  refine Prog.Follows.perform_bind fun res => ⟨.manual, rfl, ?_⟩
  exact Prog.Follows.ite (fun _ => rfl) fun _ => rfl

theorem fwloaderRgbLedCheckAndReinitIfNeeded_follows :
    Prog.Follows ledProtocol (fun _ mode => mode = .manual) .manual
      fwloaderRgbLedCheckAndReinitIfNeeded := by
  refine Prog.Follows.perform_bind fun ready => ⟨.manual, rfl, ?_⟩
  refine Prog.Follows.ite (fun _ => rfl) fun _ => ?_
  exact fun ok => ⟨.manual, rfl, rfl⟩

/-- A round configures the next channel. -/
theorem configureChannel_follows {n : ℕ} (hn : n < autoAnimationNumLedChannels) :
    Prog.Follows ledProtocol (fun res mode => Sum.elim
      (fun i => i = n + 1 ∧ mode = .enabled (n + 1)) (fun ok => ok = false ∧ mode = .failed) res)
      (.enabled n) (configureChannel n) := by
  refine Prog.Follows.perform_bind fun ok => ?_
  refine ⟨if ok = true then .enabled (n + 1) else .failed, if_pos ⟨rfl, hn⟩, ?_⟩
  cases ok with
  | false => exact ⟨rfl, rfl⟩
  | true => exact ⟨rfl, rfl⟩

/-- The animation plays if all calls of the controller have succeeded, and otherwise the first
failure has been the last call. -/
theorem fwloaderRgbLedTurnOnAnimationBlinkingWhite_follows (pCurrents : RgbLedCurrents) :
    Prog.Follows ledProtocol (fun ok mode => mode = if ok = true then .playing else .failed)
      .manual (fwloaderRgbLedTurnOnAnimationBlinkingWhite pCurrents) := by
  refine Prog.Follows.perform_bind fun enabled => ?_
  refine ⟨if enabled = true then .enabled 0 else .failed, rfl, ?_⟩
  cases enabled with
  | false => rfl
  | true =>
    -- the channels below the loop variable are configured
    refine Prog.Follows.bind (Prog.Follows.times (M := ledProtocol) (q := .enabled 0)
      (I := fun i n mode => n = i ∧ mode = .enabled i)
      (X := fun ok mode => ok = false ∧ mode = .failed) autoAnimationNumLedChannels (i := 0) ?_
      ⟨rfl, rfl⟩) ?_
    · rintro i _ _ hi ⟨rfl, rfl⟩
      exact configureChannel_follows (by rwa [Nat.zero_add] at hi)
    · rintro (_ | _) mode hres
      · obtain ⟨-, rfl⟩ := hres
        refine Prog.Follows.perform_bind fun ok => ?_
        refine ⟨if ok = true then .playing else .failed, rfl, ?_⟩
        cases ok <;> rfl
      · obtain ⟨rfl, rfl⟩ := hres
        rfl

end FwLoader.Main
