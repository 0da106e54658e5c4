import FwLoader.Foundations.Scripts
import FwLoader.Main.RgbLed

/-!
# The reboot of the device

`sys_reboot` is wrapped. In the main thread it switches the RGB LED off, looks for files of an
update, announces them by an animation and waits for the watchdog to reset the device. In all other
threads it requests the reboot from the main thread and waits. `rebootStep` relates what it calls to
the steps that `Mgmt.wrapSysReboot` names.
-/

namespace FwLoader.Main

open Foundations Mgmt Mgmt.RuuviFw

/-! ## The code -/

/-- `k_msleep` and `k_sleep` -/
def kSleep (ms : ℕ) : Prog mainApi Unit := @Prog.perform mainApi (.kSleep ms)

/-- `app_fs_is_file_exist`, with `g_fs_dir_entry` before and after it. -/
def appFsIsFileExist (pAbsPath : CString) (gFsDirEntry : FsDirEntryType) :
    Prog mainApi (Bool × FsDirEntryType) := do
  let stat ← @Prog.perform mainApi (.fsStat pAbsPath gFsDirEntry)
  if -enoent = stat.1 then pure (false, stat.2)
  else if 0 ≠ stat.1 then pure (false, stat.2)
  else if .file ≠ stat.2 then pure (false, stat.2)
  else pure (true, stat.2)

/-- `flag_updates_available` of `__wrap_sys_reboot` -/
def flagUpdatesAvailable (fw : RuuviFw) (gFsDirEntry : FsDirEntryType) : Prog mainApi Bool := do
  let flag := false
  let mcuboot0 ← appFsIsFileExist (path fw.updateMountPoint fw.mcuboot0FileName) gFsDirEntry
  let flag := if mcuboot0.1 then true else flag
  let mcuboot1 ← appFsIsFileExist (path fw.updateMountPoint fw.mcuboot1FileName) mcuboot0.2
  let flag := if mcuboot1.1 then true else flag
  let loader ← appFsIsFileExist (path fw.updateMountPoint fw.loaderFileName) mcuboot1.2
  let flag := if loader.1 then true else flag
  let app ← appFsIsFileExist (path fw.updateMountPoint fw.appFileName) loader.2
  pure (if app.1 then true else flag)

/-- "Turning off LED before reboot" -/
def turnOffRgbLed : Prog mainApi Unit := do
  let ready ← fwloaderRgbLedIsLp5810Ready
  if ready then do
    let _ ← fwloaderRgbLedSetRawCurrentsAndPwms ⟨0, 0, 0⟩ ⟨0, 0, 0⟩
    pure ()
  else pure ()

/-- `FWLOADER_RGB_ANIMATION_BLINKING_WHITE_CURRENT_RED`, `_GREEN` and `_BLUE` -/
def blinkingWhiteCurrents : RgbLedCurrents := ⟨115, 36, 53⟩

/-- "There are pending firmware updates, indicating this with RGB LED" -/
def announceUpdates (flagUpdatesAvailable : Bool) : Prog mainApi Unit :=
  if flagUpdatesAvailable then do
    let ready ← fwloaderRgbLedIsLp5810Ready
    if ready then do
      let _ ← fwloaderRgbLedTurnOnAnimationBlinkingWhite blinkingWhiteCurrents
      pure ()
    else pure ()
  else pure ()

/-- `fwloader_watchdog_force_trigger`. It does not return. -/
def fwloaderWatchdogForceTrigger : Prog mainApi Unit := @Prog.perform mainApi .watchdogForceTrigger

/-- `__wrap_sys_reboot` in the main thread -/
def rebootFromMainThread (fw : RuuviFw) (gFsDirEntry : FsDirEntryType) : Prog mainApi Unit := do
  turnOffRgbLed
  let flagUpdatesAvailable ← flagUpdatesAvailable fw gFsDirEntry
  announceUpdates flagUpdatesAvailable
  kSleep 25
  fwloaderWatchdogForceTrigger

/-- `MSEC_PER_SEC` -/
def msecPerSec : ℕ := 1000

/-- A round of the loop in which the other threads stay. -/
def waitForReboot (_ : Unit) : Prog mainApi (Unit ⊕ Empty) := do
  kSleep msecPerSec
  pure (.inl ())

/-- `__wrap_sys_reboot` in another thread, with at most `n` rounds of its loop -/
def requestReboot (n : ℕ) : Prog mainApi Unit := do
  @Prog.perform mainApi .setFlagRebootRequested
  let _ ← Prog.loop waitForReboot n ()
  pure ()

/-- `__wrap_sys_reboot` -/
def wrapSysReboot (fw : RuuviFw) (gFsDirEntry : FsDirEntryType) (isMainThread : Bool) (n : ℕ) :
    Prog mainApi Unit :=
  if isMainThread then rebootFromMainThread fw gFsDirEntry else requestReboot n

/-! ## Calls of drivers -/

theorem turnOffRgbLed_onlyDrivers : OnlyDrivers turnOffRgbLed := by
  refine Prog.onlyCalls_perform_bind rfl fun _ => Prog.onlyCalls_ite (fun _ => ?_) fun _ => trivial
  exact (fwloaderRgbLedSetRawCurrentsAndPwms_onlyDrivers _ _).bind fun _ => trivial

theorem appFsIsFileExist_onlyDrivers (pAbsPath : CString) (gFsDirEntry : FsDirEntryType) :
    OnlyDrivers (appFsIsFileExist pAbsPath gFsDirEntry) :=
  Prog.onlyCalls_perform_bind rfl fun _ =>
    Prog.onlyCalls_ite (fun _ => trivial) fun _ => Prog.onlyCalls_ite (fun _ => trivial) fun _ =>
      Prog.onlyCalls_ite (fun _ => trivial) fun _ => trivial

theorem flagUpdatesAvailable_onlyDrivers (fw : RuuviFw) (gFsDirEntry : FsDirEntryType) :
    OnlyDrivers (flagUpdatesAvailable fw gFsDirEntry) :=
  (appFsIsFileExist_onlyDrivers _ _).bind fun _ => (appFsIsFileExist_onlyDrivers _ _).bind fun _ =>
    (appFsIsFileExist_onlyDrivers _ _).bind fun _ =>
      (appFsIsFileExist_onlyDrivers _ _).bind fun _ => trivial

theorem announceUpdates_onlyDrivers (flagUpdatesAvailable : Bool) :
    OnlyDrivers (announceUpdates flagUpdatesAvailable) := by
  refine Prog.onlyCalls_ite (fun _ => ?_) fun _ => trivial
  refine Prog.onlyCalls_perform_bind rfl fun _ => Prog.onlyCalls_ite (fun _ => ?_) fun _ => trivial
  exact (fwloaderRgbLedTurnOnAnimationBlinkingWhite_onlyDrivers _).bind fun _ => trivial

/-! ## The controller in the reboot -/

/-- Before the reset, calls of other drivers leave the controller as it is. -/
theorem perform_follows {c : MainCall} {mode : LedMode} {Q : mainApi.Answer c → LedMode → Prop}
    (hstep : ∀ r, ledProtocol.step mode ⟨c, r⟩ = some mode) (hQ : ∀ r, Q r mode) :
    Prog.Follows ledProtocol Q mode (@Prog.perform mainApi c) := fun r => ⟨mode, hstep r, hQ r⟩

theorem kSleep_follows (ms : ℕ) {mode : LedMode} (hmode : mode ≠ .reset) :
    Prog.Follows ledProtocol (fun _ mode' => mode' = mode) mode (kSleep ms) := by
  refine perform_follows (fun _ => ?_) fun _ => rfl
  cases mode with
  | reset => exact absurd rfl hmode
  | manual | enabled _ | playing | failed => rfl

theorem appFsIsFileExist_follows (pAbsPath : CString) (gFsDirEntry : FsDirEntryType) :
    Prog.Follows ledProtocol (fun _ mode => mode = .manual) .manual
      (appFsIsFileExist pAbsPath gFsDirEntry) := by
  refine Prog.Follows.perform_bind fun stat => ⟨.manual, rfl, ?_⟩
  exact Prog.Follows.ite (fun _ => rfl) fun _ => Prog.Follows.ite (fun _ => rfl) fun _ =>
    Prog.Follows.ite (fun _ => rfl) fun _ => rfl

theorem flagUpdatesAvailable_follows (fw : RuuviFw) (gFsDirEntry : FsDirEntryType) :
    Prog.Follows ledProtocol (fun _ mode => mode = .manual) .manual
      (flagUpdatesAvailable fw gFsDirEntry) := by
  refine Prog.Follows.bind_eq (appFsIsFileExist_follows _ _) fun _ => ?_
  refine Prog.Follows.bind_eq (appFsIsFileExist_follows _ _) fun _ => ?_
  refine Prog.Follows.bind_eq (appFsIsFileExist_follows _ _) fun _ => ?_
  exact Prog.Follows.bind_eq (appFsIsFileExist_follows _ _) fun _ => rfl

theorem turnOffRgbLed_follows :
    Prog.Follows ledProtocol (fun _ mode => mode = .manual) .manual turnOffRgbLed := by
  refine Prog.Follows.perform_bind fun ready => ⟨.manual, rfl, ?_⟩
  refine Prog.Follows.ite (fun _ => ?_) fun _ => rfl
  exact Prog.Follows.bind_eq (fwloaderRgbLedSetRawCurrentsAndPwms_follows _ _) fun _ => rfl

theorem announceUpdates_follows (flagUpdatesAvailable : Bool) :
    Prog.Follows ledProtocol (fun _ mode => mode ≠ .reset) .manual
      (announceUpdates flagUpdatesAvailable) := by
  refine Prog.Follows.ite (fun _ => ?_) fun _ => nofun
  refine Prog.Follows.perform_bind fun ready => ⟨.manual, rfl, ?_⟩
  refine Prog.Follows.ite (fun _ => ?_) fun _ => nofun
  apply (fwloaderRgbLedTurnOnAnimationBlinkingWhite_follows blinkingWhiteCurrents).bind
  rintro (_ | _) _ rfl
  · exact nofun
  · exact nofun

/-- The reboot ends with the reset. -/
theorem rebootFromMainThread_follows (fw : RuuviFw) (gFsDirEntry : FsDirEntryType) :
    Prog.Follows ledProtocol (fun _ mode => mode = .reset) .manual
      (rebootFromMainThread fw gFsDirEntry) := by
  refine Prog.Follows.bind_eq turnOffRgbLed_follows fun _ => ?_
  refine Prog.Follows.bind_eq (flagUpdatesAvailable_follows fw gFsDirEntry) fun flag => ?_
  refine Prog.Follows.bind (announceUpdates_follows flag) fun _ mode hmode => ?_
  refine Prog.Follows.bind_eq (kSleep_follows 25 hmode) fun _ _ => ⟨.reset, ?_, rfl⟩
  cases mode with
  | reset => exact absurd rfl hmode
  | manual | enabled _ | playing | failed => rfl

/-! ## The steps of the reboot -/

/-- The step that begins with a call. -/
def rebootStep (e : Event mainApi) : Option RebootStep :=
  match e.call with
  | .ledWriteChannels _ _ => some .turnOffLed
  | .autoAnimationEnable _ => some .turnOnAnimationBlinkingWhite
  | .watchdogForceTrigger => some .restart
  | .setFlagRebootRequested => some .requestReboot
  | _ => none

/-- The steps that begin. -/
abbrev Steps {α : Type} (w : List RebootStep) (p : Prog mainApi α) : Prop :=
  Prog.Acts rebootStep w p

theorem steps_perform {c : MainCall} (h : ∀ r, rebootStep ⟨c, r⟩ = none) :
    Steps [] (@Prog.perform mainApi c) := Prog.Acts.perform_unseen h

theorem setRawCurrentsAndPwms_steps (pRgbLedCurrents : RgbLedCurrents) (pRgbLedPwms : RgbLedPwms) :
    Steps [.turnOffLed] (fwloaderRgbLedSetRawCurrentsAndPwms pRgbLedCurrents pRgbLedPwms) := by
  show Steps ([.turnOffLed] ++ []) _
  refine Prog.Acts.bind (Prog.Acts.perform_seen fun _ => rfl) fun res => ?_
  exact (Prog.Acts.pure false).ite (Prog.Acts.pure true)

theorem turnOnAnimationBlinkingWhite_steps (pCurrents : RgbLedCurrents) :
    Steps [.turnOnAnimationBlinkingWhite]
      (fwloaderRgbLedTurnOnAnimationBlinkingWhite pCurrents) := by
  show Steps ([.turnOnAnimationBlinkingWhite] ++ []) _
  refine Prog.Acts.bind (Prog.Acts.perform_seen fun _ => rfl) fun enabled => ?_
  refine (Prog.Acts.pure false).ite (Prog.Acts.of_onlyCalls ?_)
  apply (Prog.OnlyCalls.times ?_ _ _).bind
  · rintro (_ | _)
    · exact Prog.onlyCalls_perform_bind (fun _ => rfl) fun _ =>
        Prog.onlyCalls_ite (fun _ => trivial) fun _ => trivial
    · trivial
  · exact fun i => Prog.onlyCalls_perform_bind (fun _ => rfl) fun _ =>
      Prog.onlyCalls_ite (fun _ => trivial) fun _ => trivial

/-- To look for files is no step. -/
theorem flagUpdatesAvailable_steps (fw : RuuviFw) (gFsDirEntry : FsDirEntryType) :
    Steps [] (flagUpdatesAvailable fw gFsDirEntry) := by
  have hexist (p : CString) (type : FsDirEntryType) : Steps [] (appFsIsFileExist p type) :=
    (steps_perform fun _ => rfl).bind fun _ => (Prog.Acts.pure _).ite
      ((Prog.Acts.pure _).ite ((Prog.Acts.pure _).ite (Prog.Acts.pure _)))
  exact (hexist _ _).bind fun _ => (hexist _ _).bind fun _ => (hexist _ _).bind fun _ =>
    (hexist _ _).bind fun _ => Prog.Acts.pure _

/-! ## What `Mgmt.wrapSysReboot` says -/

/-- The controller does not change its mind, and the files stay as they are. -/
structure Answers {σ : Type} (api : FsStat) (files : Files) (isLp5810Ready : Bool)
    (H : Handler mainApi σ) : Prop where
  ready : ∀ s, H.answer s .deviceIsReady = isLp5810Ready
  stat : ∀ s path gFsDirEntry,
    H.answer s (.fsStat path gFsDirEntry) = api.stat files path gFsDirEntry

section

variable {σ : Type} {api : FsStat} {fw : RuuviFw} {files : Files} {isLp5810Ready : Bool}
  {H : Handler mainApi σ}

theorem run_appFsIsFileExist (hH : Answers api files isLp5810Ready H) (pAbsPath : CString)
    (gFsDirEntry : FsDirEntryType) (s : σ) :
    ((appFsIsFileExist pAbsPath gFsDirEntry).run H s).1 =
      Mgmt.appFsIsFileExist api files pAbsPath gFsDirEntry := by
  have hstat : ((@Prog.perform mainApi (.fsStat pAbsPath gFsDirEntry)).run H s).1 =
      api.stat files pAbsPath gFsDirEntry := hH.stat s pAbsPath gFsDirEntry
  simp only [appFsIsFileExist, Mgmt.appFsIsFileExist, Prog.run_bind, Prog.run_ite, Prog.run_pure,
    hstat, apply_ite Prod.fst]

theorem run_flagUpdatesAvailable (hH : Answers api files isLp5810Ready H)
    (gFsDirEntry : FsDirEntryType) (s : σ) :
    ((flagUpdatesAvailable fw gFsDirEntry).run H s).1 =
      Mgmt.flagUpdatesAvailable api fw files gFsDirEntry := by
  simp only [flagUpdatesAvailable, Mgmt.flagUpdatesAvailable, Prog.run_bind, Prog.run_pure,
    run_appFsIsFileExist hH]

/-- A step that needs the controller. -/
theorem seen_of_ready (hH : Answers api files isLp5810Ready H) {step : RebootStep}
    {p : Prog mainApi Bool} (hp : Steps [step] p) (s : σ) :
    (fwloaderRgbLedIsLp5810Ready >>= fun ready =>
      if ready then p >>= fun _ => pure () else pure ()).seen rebootStep H s =
        if isLp5810Ready then [step] else [] := by
  have hready : (fwloaderRgbLedIsLp5810Ready.run H s).1 = isLp5810Ready := hH.ready s
  have hpure : Steps ([step] ++ []) (p >>= fun _ => pure ()) := hp.bind fun _ => Prog.Acts.pure ()
  rw [Prog.seen_bind, hready, Prog.seen_ite, hpure]
  rfl

theorem seen_turnOffRgbLed (hH : Answers api files isLp5810Ready H) (s : σ) :
    turnOffRgbLed.seen rebootStep H s = if isLp5810Ready then [.turnOffLed] else [] :=
  seen_of_ready hH (setRawCurrentsAndPwms_steps _ _) s

theorem seen_announceUpdates (hH : Answers api files isLp5810Ready H) (flagUpdatesAvailable : Bool)
    (s : σ) : (announceUpdates flagUpdatesAvailable).seen rebootStep H s =
      if flagUpdatesAvailable then
        if isLp5810Ready then [.turnOnAnimationBlinkingWhite] else []
      else [] := by
  rw [announceUpdates, Prog.seen_ite]
  cases flagUpdatesAvailable with
  | true => exact seen_of_ready hH (turnOnAnimationBlinkingWhite_steps _) s
  | false => rfl

end

/-- The file of the application is there. -/
def sampleFiles : Files :=
  Function.update formatted (path sampleFw.updateMountPoint sampleFw.appFileName) (some [1])

/-- The controller is ready, but its calls fail. -/
def sampleAnswers : Oracle mainApi
  | .deviceIsReady => true
  | .fsStat path gFsDirEntry => sampleStat.stat sampleFiles path gFsDirEntry
  | .ledWriteChannels _ _ => (-5 : Int32)
  | .checkAndReinitIfNeeded => false
  | .autoAnimationEnable _ => false
  | .autoAnimationConfigure _ _ => false
  | .autoAnimationStart => false
  | .flagRebootRequested => false
  | .setFlagRebootRequested => ()
  | .buttonIsPressed => false
  | .btIsConnected => false
  | .isUploadingInProgress => false
  | .watchdogFeed => ()
  | .watchdogForceTrigger => ()
  | .kSleep _ => ()

end FwLoader.Main
