import FwLoader.Foundations.Interleaving
import FwLoader.Main.Loop
import FwLoader.Threads.Device

/-!
# The code of the threads

Main, the callbacks of the Bluetooth stack and the handlers of the work queue as programs, each call
of which is one step. Main goes on from start-up into its whole main loop and reboot, with the calls
of its drivers; the variables of the other threads are read where they are shared. `source` lets the
programs run interleaved.
-/

namespace FwLoader.Threads

open Foundations

/-! ## What the threads call -/

/-- The calls of the board, the kernel and the Bluetooth stack. Of the start-up, only those calls
are spelt out that change what the threads share. `cutOff` stands where a loop is cut off. -/
inductive BoardCall
  | call (k : Call)
  | supercapInit
  | extFlashPower (isOn : Bool)
  | fwVerInit
  | seggerRttCheckDataLocationAndSize
  | settingsInit
  | fsMount
  | watchdogStart
  | statsInitAndReg
  | mgmtCallbacksInit
  | btLeAdvStop
  | btLeAdvStart
  | cutOff

/-- The results of the start-up are only logged. -/
abbrev boardApi : Interface where
  Call := BoardCall
  Answer
    | .btLeAdvStart => Int32
    | _ => Unit

/-- All that the threads call. -/
abbrev threadApi : Interface := Main.mainApi.sum boardApi

/-- The code of a thread. -/
abbrev Code := Prog threadApi Unit

/-- A call of the board. -/
def board (c : BoardCall) : Prog threadApi (boardApi.Answer c) :=
  @Prog.perform threadApi (Sum.inr c)

/-- A call that changes what the threads share. -/
def make (k : Call) : Code := board (.call k)

/-! ## The code -/

/-- `fwloader_led_early_init` -/
def fwloaderLedEarlyInit : Code := do
  make (.ledInitGpio .red)
  make (.ledInitGpio .green)

/-- `fwloader_early_init_post_kernel` -/
def fwloaderEarlyInitPostKernel : Code := do
  board .supercapInit
  fwloaderLedEarlyInit
  board (.extFlashPower false)
  make (.ledSet .red true)
  (Main.kSleep 100).inl
  make .buttonInit
  board (.extFlashPower true)
  make (.ledSet .red false)
  (Main.kSleep 100).inl

/-- `fwloader_led_deinit_gpio` -/
def fwloaderLedDeinitGpio (c : Color) : Code := do
  make (.gpioPinSet c)
  make (.gpioDisconnect c)

/-- `fwloader_led_late_init_pwm` -/
def fwloaderLedLateInitPwm : Code := do
  fwloaderLedDeinitGpio .red
  make (.pwmSet .red)
  fwloaderLedDeinitGpio .green
  make (.pwmSet .green)
  make .setPwmMode

/-- `fwloader_button_is_pressed` -/
def fwloaderButtonIsPressed : Prog threadApi Bool :=
  (@Prog.perform Main.mainApi .buttonIsPressed).inl

/-- `if (!fwloader_button_is_pressed())` -/
def unlessPressed (p : Code) : Code := do
  let pressed ← fwloaderButtonIsPressed
  if pressed = false then p else pure ()

/-- `main` up to its loop -/
def mainStartUp : Code := do
  board .fwVerInit
  board .seggerRttCheckDataLocationAndSize
  fwloaderLedLateInitPwm
  board .settingsInit
  board .fsMount
  board .watchdogStart
  board .statsInitAndReg
  make .btEnable
  board .mgmtCallbacksInit
  make .ledLock
  unlessPressed (make (.ledSet .red true))
  make .ledUnlock

/-- Early init and `main`, with at most `n` rounds of its loop -/
def mainCode (T : UInt32) (fw : Mgmt.RuuviFw) (gFsDirEntry : Mgmt.FsDirEntryType) (n : ℕ) :
    Code := do
  fwloaderEarlyInitPostKernel
  mainStartUp
  let _ ← (Main.mainFromLoop T fw gFsDirEntry n).inl
  pure ()

/-- `connected` -/
def connected (err : UInt8) : Code :=
  if 0 ≠ err then pure () else do
    make (.setConnected true)
    make .ledLock
    unlessPressed do
      make (.ledSet .red false)
      make (.ledSet .green true)
    make .ledUnlock

/-- `disconnected` -/
def disconnected (_reason : UInt8) : Code := do
  make (.setConnected false)
  make .ledLock
  unlessPressed do
    make (.ledSet .green false)
    make (.ledSet .red true)
  make .ledUnlock
  make (.submit .advertise)

/-- `button_workq_cb_pressed` -/
def buttonWorkqCbPressed : Code := do
  make (.reschedule .timeout)
  make .ledLock
  make .setPressed
  make (.ledSet .green true)
  make (.ledSet .red true)
  make .ledUnlock

/-- `button_workq_cb_released` -/
def buttonWorkqCbReleased : Code := do
  make (.cancel .timeout)
  make .ledLock
  make (.ledSet .green false)
  make (.ledSet .red false)
  make .ledUnlock
  make (.reschedule .reboot)

/-- `button_workq_cb_timeout` -/
def buttonWorkqCbTimeout : Code := do
  make .ledLock
  make (.ledSet .green false)
  make (.ledSet .red false)
  make .ledUnlock
  make (.reschedule .reboot)

/-- `button_workq_cb_reboot`, which waits for `n` rounds -/
def buttonWorkqCbReboot (fw : Mgmt.RuuviFw) (gFsDirEntry : Mgmt.FsDirEntryType) (n : ℕ) :
    Code := do
  (Main.wrapSysReboot fw gFsDirEntry false n).inl
  board .cutOff

/-- `advertise` -/
def advertise : Code := do
  board .btLeAdvStop
  let _ ← board .btLeAdvStart
  pure ()

/-- The handler of an item. -/
def Work.code (fw : Mgmt.RuuviFw) (gFsDirEntry : Mgmt.FsDirEntryType) (n : ℕ) : Work → Code
  | .pressed => buttonWorkqCbPressed
  | .released => buttonWorkqCbReleased
  | .timeout => buttonWorkqCbTimeout
  | .reboot => buttonWorkqCbReboot fw gFsDirEntry n
  | .advertise => Threads.advertise

/-! ## The threads together -/

/-- The answers to main's calls: from what is shared, or else from the environment. The reset does
not return. -/
def answerMain (d : Device) (O : Oracle Main.mainApi) :
    (c : Main.MainCall) → Option (Main.mainApi.Answer c)
  | .flagRebootRequested => some d.gFlagRebootRequested
  | .buttonIsPressed => some d.gFlagButtonPressed
  | .btIsConnected => some d.gBtIsConnected
  | .watchdogForceTrigger => none
  | c => some (O c)

/-- The answers of the board. -/
def answerBoard (d : Device) (O : Oracle boardApi) : (c : BoardCall) → Option (boardApi.Answer c)
  | .call k => if d.CanCall k then some () else none
  | .cutOff => none
  | c => some (O c)

/-- What the calls of a thread answer and do. -/
def semantics (t : Thread) : Semantics threadApi Device (Oracle threadApi) where
  answer d O
    | .inl c => answerMain d (fun c => O (Sum.inl c)) c
    | .inr c => answerBoard d (fun c => O (Sum.inr c)) c
  effect d
    | .inl .setFlagRebootRequested, _ => d.effect t .requestReboot
    | .inr (.call k), _ => d.effect t k
    | _, _ => d

/-- What the threads share, and the code that is left to them. The places of `shared` are those of
the beginning. -/
structure Source where
  shared : Device
  main : Code
  bt : Code
  workq : Code

/-- The next call of a thread with what the environment answers, the beginning of a Bluetooth
callback, an edge at the button, or the expiry of a delay. -/
inductive SourceEvent
  | main (O : Oracle threadApi)
  | bt (O : Oracle threadApi)
  | workq (O : Oracle threadApi)
  | connected (err : UInt8)
  | disconnected (reason : UInt8)
  | btReady (err : Int32)
  | edge (isPressed : Bool)
  | expire (w : Work)

/-- The programs of the threads, interleaved. `n` is where their loops are cut off. -/
def source (T : UInt32) (fw : Mgmt.RuuviFw) (gFsDirEntry : Mgmt.FsDirEntryType) (n : ℕ) :
    System Source SourceEvent where
  init := ⟨.boot, mainCode T fw gFsDirEntry n, pure (), pure ()⟩
  step s
    | .main O => (s.main.advance (semantics .main) s.shared O).map fun (d, p) =>
      { s with shared := d, main := p }
    | .bt O => (s.bt.advance (semantics .bt) s.shared O).map fun (d, p) =>
      { s with shared := d, bt := p }
    | .workq O =>
      if s.workq.hasEnded then
        s.shared.work.take.map fun (w, work) =>
          { s with shared := { s.shared with work := work }, workq := w.code fw gFsDirEntry n }
      else (s.workq.advance (semantics .workq) s.shared O).map fun (d, p) =>
        { s with shared := d, workq := p }
    | .connected err =>
      if s.shared.btEnabled ∧ s.bt.hasEnded then some { s with bt := connected err } else none
    | .disconnected reason =>
      if s.shared.btEnabled ∧ s.bt.hasEnded then some { s with bt := disconnected reason }
      else none
    | .btReady err =>
      if s.shared.btEnabled then some { s with shared := s.shared.btReady err } else none
    | .edge isPressed =>
      if s.shared.buttonInt then some { s with shared := s.shared.buttonIsr isPressed } else none
    | .expire w => (s.shared.work.expire w).map fun work =>
      { s with shared := { s.shared with work := work } }

/-- What happens outside of the threads. -/
def SourceEvent.outside : SourceEvent → Option Event
  | .main _ | .bt _ | .workq _ => none
  | .connected err => some (.connected err)
  | .disconnected reason => some (.disconnected reason)
  | .btReady err => some (.btReady err)
  | .edge isPressed => some (.edge isPressed)
  | .expire w => some (.expire w)

/-- What happens outside of the threads. -/
def Event.outside : Event → Option Event
  | .main _ | .bt | .workq => none
  | e => some e

end FwLoader.Threads
