import FwLoader.Main.Reboot

/-!
# The main loop

Each round of the main loop polls the variables of the other threads, feeds the watchdog unless the
button is pressed, and blinks for a second. It is left by a reboot, when another thread has
requested one or when no upload has been noticed for a while, and then main resets the device.
-/

namespace FwLoader.Main

open Foundations Mgmt

/-! ## The code -/

/-- The watchdog is fed unless the button is pressed. -/
def feedUnlessPressed : Prog mainApi Unit := do
  let pressed ← @Prog.perform mainApi .buttonIsPressed
  if pressed = false then @Prog.perform mainApi .watchdogFeed else pure ()

/-- `uploading_timeout_cnt` after the poll for uploads -/
def pollUploads (uploadingTimeoutCnt : UInt32) : Prog mainApi UInt32 := do
  let isConnected ← @Prog.perform mainApi .btIsConnected
  if isConnected then do
    let isUploading ← @Prog.perform mainApi .isUploadingInProgress
    if isUploading then pure 0 else pure (uploadingTimeoutCnt + 1)
  else pure (uploadingTimeoutCnt + 1)

/-- `FWLOADER_RGB_LED_BLINK_INTERVAL_MS` -/
def blinkIntervalMs : ℕ := 1000

/-- `FWLOADER_RGB_LED_BLINK_DURATION_MS` -/
def blinkDurationMs : ℕ := 50

/-- `rgb_led_currents`: `FWLOADER_RGB_LED_CURRENT_RED`, `_GREEN` and `_BLUE` -/
def rgbLedCurrents : RgbLedCurrents := ⟨0, 0, 128⟩

/-- `FWLOADER_RGB_LED_PWM_RED`, `_GREEN` and `_BLUE` -/
def rgbLedPwms : RgbLedPwms := ⟨0, 0, 255⟩

/-- The blue LED is on for `FWLOADER_RGB_LED_BLINK_DURATION_MS`. -/
def blinkRgbLed : Prog mainApi Unit := do
  let ready ← fwloaderRgbLedIsLp5810Ready
  if ready then do
    let _ ← fwloaderRgbLedCheckAndReinitIfNeeded
    let _ ← fwloaderRgbLedSetRawCurrentsAndPwms rgbLedCurrents rgbLedPwms
    kSleep blinkDurationMs
    let _ ← fwloaderRgbLedSetRawCurrentsAndPwms rgbLedCurrents ⟨0, 0, 0⟩
    kSleep (blinkIntervalMs - blinkDurationMs)
  else kSleep blinkIntervalMs

/-- Why main reboots the device. -/
inductive RebootReason
  | requested
  | timeout
deriving DecidableEq

/-- A round of the main loop, with `CONFIG_RUUVI_AIR_FW_LOADER_UPLOADING_TIMEOUT_SEC` being `T`. -/
def mainLoopRound (T uploadingTimeoutCnt : UInt32) : Prog mainApi (UInt32 ⊕ RebootReason) := do
  let requested ← @Prog.perform mainApi .flagRebootRequested
  if requested then pure (.inr .requested)
  else do
    feedUnlessPressed
    let uploadingTimeoutCnt ← pollUploads uploadingTimeoutCnt
    if uploadingTimeoutCnt ≥ T then pure (.inr .timeout)
    else do
      blinkRgbLed
      pure (.inl uploadingTimeoutCnt)

/-- The calls of `sys_reboot` in `main`. They do not return. -/
def rebootFor (fw : RuuviFw) (gFsDirEntry : FsDirEntryType) (n : ℕ) :
    Option RebootReason → Prog mainApi (Option RebootReason)
  | none => pure none
  | some reason => do
    wrapSysReboot fw gFsDirEntry true n
    pure (some reason)

/-- `main` from the loop on, with at most `n` rounds -/
def mainFromLoop (T : UInt32) (fw : RuuviFw) (gFsDirEntry : FsDirEntryType) (n : ℕ) :
    Prog mainApi (Option RebootReason) := do
  let reason ← Prog.loop (mainLoopRound T) n 0
  rebootFor fw gFsDirEntry n reason

/-! ## The controller of the RGB LED -/

theorem blinkRgbLed_follows :
    Prog.Follows ledProtocol (fun _ mode => mode = .manual) .manual blinkRgbLed := by
  refine Prog.Follows.perform_bind fun ready => ⟨.manual, rfl, ?_⟩
  refine Prog.Follows.ite (fun _ => ?_) fun _ => kSleep_follows _ nofun
  refine Prog.Follows.bind_eq fwloaderRgbLedCheckAndReinitIfNeeded_follows fun _ => ?_
  refine Prog.Follows.bind_eq (fwloaderRgbLedSetRawCurrentsAndPwms_follows _ _) fun _ => ?_
  refine Prog.Follows.bind_eq (kSleep_follows _ nofun) fun _ => ?_
  refine Prog.Follows.bind_eq (fwloaderRgbLedSetRawCurrentsAndPwms_follows _ _) fun _ => ?_
  exact kSleep_follows _ nofun

theorem feedUnlessPressed_follows :
    Prog.Follows ledProtocol (fun _ mode => mode = .manual) .manual feedUnlessPressed := by
  refine Prog.Follows.perform_bind fun pressed => ⟨.manual, rfl, ?_⟩
  exact Prog.Follows.ite (fun _ => perform_follows (fun _ => rfl) fun _ => rfl) fun _ => rfl

theorem pollUploads_follows (uploadingTimeoutCnt : UInt32) :
    Prog.Follows ledProtocol (fun _ mode => mode = .manual) .manual
      (pollUploads uploadingTimeoutCnt) := by
  refine Prog.Follows.perform_bind fun isConnected => ⟨.manual, rfl, ?_⟩
  refine Prog.Follows.ite (fun _ => ?_) fun _ => rfl
  refine Prog.Follows.perform_bind fun isUploading => ⟨.manual, rfl, ?_⟩
  exact Prog.Follows.ite (fun _ => rfl) fun _ => rfl

theorem mainLoopRound_follows (T uploadingTimeoutCnt : UInt32) :
    Prog.Follows ledProtocol (fun _ mode => mode = .manual) .manual
      (mainLoopRound T uploadingTimeoutCnt) := by
  refine Prog.Follows.perform_bind fun requested => ⟨.manual, rfl, ?_⟩
  refine Prog.Follows.ite (fun _ => rfl) fun _ => ?_
  refine Prog.Follows.bind_eq feedUnlessPressed_follows fun _ => ?_
  refine Prog.Follows.bind_eq (pollUploads_follows _) fun cnt => ?_
  refine Prog.Follows.ite (fun _ => rfl) fun _ => ?_
  exact Prog.Follows.bind_eq blinkRgbLed_follows fun _ => rfl

/-- Whatever the drivers and the other threads answer, main drives the controller as its protocol
says. If it comes to a reboot, the reset is its last call. -/
theorem mainFromLoop_follows (T : UInt32) (fw : RuuviFw) (gFsDirEntry : FsDirEntryType) (n : ℕ) :
    Prog.Follows ledProtocol (fun res mode => mode = if res.isSome then .reset else .manual) .manual
      (mainFromLoop T fw gFsDirEntry n) := by
  refine Prog.Follows.bind_eq (Prog.Follows.loop_eq (mainLoopRound_follows T) n 0) fun reason => ?_
  cases reason with
  | none => rfl
  | some reason =>
    exact Prog.Follows.bind_eq (rebootFromMainThread_follows fw gFsDirEntry) fun _ => rfl

/-- In every environment the calls of main are allowed, one after the other. -/
theorem exec_mainFromLoop {σ : Type} (H : Handler mainApi σ) (s : σ) (T : UInt32) (fw : RuuviFw)
    (gFsDirEntry : FsDirEntryType) (n : ℕ) :
    let p := mainFromLoop T fw gFsDirEntry n
    ledProtocol.exec .manual (p.trace H s) =
      some (if (p.run H s).1.isSome then .reset else .manual) := by
  obtain ⟨mode, hexec, rfl⟩ := (mainFromLoop_follows T fw gFsDirEntry n).run H s
  exact hexec

end FwLoader.Main
