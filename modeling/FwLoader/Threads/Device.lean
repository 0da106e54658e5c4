import FwLoader.Foundations.Transition
import FwLoader.Foundations.WorkQueue

/-!
# The threads of the device

Main, the Bluetooth thread and the system work queue write the pinhole LEDs. A step of a thread is
one call of its code, so that the others can come in between any two of them. `MainPc`, `BtPc` and
`WorkqPc` are the places in the code: `call` is the call that is made there, `next` the place behind
it, and `Device.effect` what a call does. The work queue is the one of Zephyr: the button interrupt
and the timers put items into it, and their handlers run to the end one after the other.
-/

namespace FwLoader.Threads

open Foundations

/-! ## LEDs -/

/-- The two pinhole LEDs. -/
inductive Color
  | red
  | green
deriving DecidableEq

/-- A pinhole LED: whether its GPIO is configured as an output, the level of the GPIO, and whether
its PWM channel has a pulse width other than 0. -/
structure Led where
  configured : Bool
  level : Bool
  pwm : Bool
deriving DecidableEq

namespace Led

/-- The LED gives light. -/
def isOn (l : Led) : Bool := l.configured && l.level || l.pwm

/-- `fwloader_led_init_gpio` -/
def initGpio (l : Led) : Led := { l with configured := true, level := false }

/-- `gpio_pin_set_dt` -/
def gpioPinSet (l : Led) (isOn : Bool) : Led := { l with level := isOn }

/-- `gpio_pin_configure_dt` with `GPIO_DISCONNECTED` -/
def gpioDisconnect (l : Led) : Led := { l with configured := false }

/-- `pwm_set_dt` with the configured pulse width, or with 0 -/
def pwmSet (l : Led) (isOn : Bool) : Led := { l with pwm := isOn }

/-- `fwloader_led_red_set` and `fwloader_led_green_set` -/
def set (inPwmMode : Bool) (isOn : Bool) (l : Led) : Led :=
  if inPwmMode then l.pwmSet isOn else l.gpioPinSet isOn

end Led

/-! ## Calls -/

/-- The threads. All that happens outside of them is put down to `isr`. -/
inductive Thread
  | main
  | bt
  | workq
  | isr
deriving DecidableEq

/-- The items of the work queue. -/
inductive Work
  | pressed
  | released
  | timeout
  | reboot
  | advertise
deriving DecidableEq

/-- The calls and assignments that the threads make. `read` stands for a test of a flag, and for
calls that do nothing to the LEDs, the flags and the work queue. -/
inductive Call
  | read
  | ledInitGpio (c : Color)
  | gpioPinSet (c : Color)
  | gpioDisconnect (c : Color)
  | pwmSet (c : Color)
  | setPwmMode
  | ledSet (c : Color) (isOn : Bool)
  | ledLock
  | ledUnlock
  | buttonInit
  | btEnable
  | setConnected (isConnected : Bool)
  | setPressed
  | requestReboot
  | submit (w : Work)
  | reschedule (w : Work)
  | cancel (w : Work)
deriving DecidableEq

/-! ## Where the threads are -/

/-- Main, from early init over start-up to the main loop. -/
inductive MainPc
  -- `fwloader_early_init_post_kernel`
  | ledInitGpio (c : Color)
  | redSetTrue
  | buttonCbInit
  | redSetFalse
  -- `fwloader_led_late_init_pwm`
  | gpioPinSet (c : Color)
  | gpioDisconnect (c : Color)
  | pwmSet (c : Color)
  | setPwmMode
  -- the start-up of main
  | startSmpBluetoothAdverts
  | ledLock
  | isPressed
  | redOn
  | ledUnlock
  -- the main loop
  | testReboot
  | testPressed
  | watchdogFeed
  | testTimeout
  | rebooting
deriving DecidableEq

/-- The Bluetooth thread, in `connected` if the flag is set, or else in `disconnected`. -/
inductive BtPc
  | idle
  | setFlag (isConnected : Bool)
  | ledLock (isConnected : Bool)
  | isPressed (isConnected : Bool)
  | ledOff (isConnected : Bool)
  | ledOn (isConnected : Bool)
  | ledUnlock (isConnected : Bool)
  | submitAdvertise
deriving DecidableEq

/-- The two handlers that switch the LEDs off. -/
inductive OffWork
  | released
  | timeout
deriving DecidableEq

/-- The work queue thread. -/
inductive WorkqPc
  | idle
  -- `button_workq_cb_pressed`
  | pressedReschedule
  | pressedLock
  | pressedSet
  | pressedGreenOn
  | pressedRedOn
  | pressedUnlock
  -- `button_workq_cb_released` and `button_workq_cb_timeout`
  | releasedCancel
  | offLock (w : OffWork)
  | offGreen (w : OffWork)
  | offRed (w : OffWork)
  | offUnlock (w : OffWork)
  | offReschedule (w : OffWork)
  -- `button_workq_cb_reboot`
  | reboot
  | rebooting
  -- `advertise`
  | advertise
deriving DecidableEq

/-- The threads, what they share, and what `gpio_pin_interrupt_configure_dt` and `bt_enable` have
switched on. -/
structure Device where
  main : MainPc
  bt : BtPc
  workq : WorkqPc
  leds : Color → Led
  gFwloaderLedInPwmMode : Bool
  gFwloaderLedMutex : Option Thread
  gFlagButtonPressed : Bool
  gBtIsConnected : Bool
  gFlagRebootRequested : Bool
  buttonInt : Bool
  btEnabled : Bool
  work : WorkQueue Work

namespace Device

/-- The beginning of early init. -/
def boot : Device where
  main := .ledInitGpio .red
  bt := .idle
  workq := .idle
  leds _ := ⟨false, false, false⟩
  gFwloaderLedInPwmMode := false
  gFwloaderLedMutex := none
  gFlagButtonPressed := false
  gBtIsConnected := false
  gFlagRebootRequested := false
  buttonInt := false
  btEnabled := false
  work := .empty

/-! ## What the calls do -/

def updateLed (d : Device) (c : Color) (f : Led → Led) : Device :=
  { d with leds := Function.update d.leds c (f (d.leds c)) }

/-- What a call of a thread does to what is shared. -/
def effect (d : Device) (t : Thread) : Call → Device
  | .read => d
  | .ledInitGpio c => d.updateLed c .initGpio
  | .gpioPinSet c => d.updateLed c (·.gpioPinSet false)
  | .gpioDisconnect c => d.updateLed c .gpioDisconnect
  | .pwmSet c => d.updateLed c (·.pwmSet false)
  | .setPwmMode => { d with gFwloaderLedInPwmMode := true }
  | .ledSet c isOn => d.updateLed c (.set d.gFwloaderLedInPwmMode isOn)
  | .ledLock => { d with gFwloaderLedMutex := some t }
  | .ledUnlock => { d with gFwloaderLedMutex := none }
  | .buttonInit => { d with buttonInt := true }
  | .btEnable => { d with btEnabled := true }
  | .setConnected isConnected => { d with gBtIsConnected := isConnected }
  | .setPressed => { d with gFlagButtonPressed := true }
  | .requestReboot => { d with gFlagRebootRequested := true }
  | .submit w => { d with work := d.work.submit w }
  | .reschedule w => { d with work := d.work.reschedule w }
  | .cancel w => { d with work := d.work.cancel w }

/-- `fwloader_led_lock` waits until the mutex is free; no other call waits. -/
def CanCall (d : Device) (k : Call) : Prop := k = .ledLock → d.gFwloaderLedMutex = none

instance (d : Device) (k : Call) : Decidable (d.CanCall k) := inferInstanceAs (Decidable (_ → _))

end Device

/-! ## The code -/

/-- The calls of main. `sys_reboot` does not return. -/
def MainPc.call : MainPc → Option Call
  | .ledInitGpio c => some (.ledInitGpio c)
  | .redSetTrue => some (.ledSet .red true)
  | .buttonCbInit => some .buttonInit
  | .redSetFalse => some (.ledSet .red false)
  | .gpioPinSet c => some (.gpioPinSet c)
  | .gpioDisconnect c => some (.gpioDisconnect c)
  | .pwmSet c => some (.pwmSet c)
  | .setPwmMode => some .setPwmMode
  | .startSmpBluetoothAdverts => some .btEnable
  | .ledLock => some .ledLock
  | .isPressed => some .read
  | .redOn => some (.ledSet .red true)
  | .ledUnlock => some .ledUnlock
  | .testReboot | .testPressed | .watchdogFeed | .testTimeout => some .read
  | .rebooting => none

/-- How main goes on. In the main loop, `expired` says whether the upload time-out has come to its
limit. -/
def MainPc.next (d : Device) (expired : Bool) : MainPc → MainPc
  | .ledInitGpio .red => .ledInitGpio .green
  | .ledInitGpio .green => .redSetTrue
  | .redSetTrue => .buttonCbInit
  | .buttonCbInit => .redSetFalse
  | .redSetFalse => .gpioPinSet .red
  | .gpioPinSet c => .gpioDisconnect c
  | .gpioDisconnect c => .pwmSet c
  | .pwmSet .red => .gpioPinSet .green
  | .pwmSet .green => .setPwmMode
  | .setPwmMode => .startSmpBluetoothAdverts
  | .startSmpBluetoothAdverts => .ledLock
  | .ledLock => .isPressed
  | .isPressed => if d.gFlagButtonPressed then .ledUnlock else .redOn
  | .redOn => .ledUnlock
  | .ledUnlock => .testReboot
  | .testReboot => if d.gFlagRebootRequested then .rebooting else .testPressed
  | .testPressed => if d.gFlagButtonPressed then .testTimeout else .watchdogFeed
  | .watchdogFeed => .testTimeout
  | .testTimeout => if expired then .rebooting else .testReboot
  | .rebooting => .rebooting

/-- The calls of `connected` and `disconnected`: they set the flag and lock, switch one LED off and
the other one on unless the button is pressed, and unlock; `disconnected` advertises again. -/
def BtPc.call : BtPc → Option Call
  | .idle => none
  | .setFlag isConnected => some (.setConnected isConnected)
  | .ledLock _ => some .ledLock
  | .isPressed _ => some .read
  | .ledOff isConnected => some (.ledSet (if isConnected then .red else .green) false)
  | .ledOn isConnected => some (.ledSet (if isConnected then .green else .red) true)
  | .ledUnlock _ => some .ledUnlock
  | .submitAdvertise => some (.submit .advertise)

/-- How a Bluetooth callback goes on. -/
def BtPc.next (d : Device) : BtPc → BtPc
  | .idle => .idle
  | .setFlag isConnected => .ledLock isConnected
  | .ledLock isConnected => .isPressed isConnected
  | .isPressed isConnected =>
    if d.gFlagButtonPressed then .ledUnlock isConnected else .ledOff isConnected
  | .ledOff isConnected => .ledOn isConnected
  | .ledOn isConnected => .ledUnlock isConnected
  | .ledUnlock isConnected => if isConnected then .idle else .submitAdvertise
  | .submitAdvertise => .idle

/-- Where the handler of an item begins. -/
def Work.handler : Work → WorkqPc
  | .pressed => .pressedReschedule
  | .released => .releasedCancel
  | .timeout => .offLock .timeout
  | .reboot => .reboot
  | .advertise => .advertise

/-- The calls of the handlers. `sys_reboot` outside of main does not return. -/
def WorkqPc.call : WorkqPc → Option Call
  | .idle => none
  | .pressedReschedule => some (.reschedule .timeout)
  | .pressedLock => some .ledLock
  | .pressedSet => some .setPressed
  | .pressedGreenOn => some (.ledSet .green true)
  | .pressedRedOn => some (.ledSet .red true)
  | .pressedUnlock => some .ledUnlock
  | .releasedCancel => some (.cancel .timeout)
  | .offLock _ => some .ledLock
  | .offGreen _ => some (.ledSet .green false)
  | .offRed _ => some (.ledSet .red false)
  | .offUnlock _ => some .ledUnlock
  | .offReschedule _ => some (.reschedule .reboot)
  | .reboot => some .requestReboot
  | .rebooting => none
  | .advertise => some .read

/-- How a handler goes on. -/
def WorkqPc.next : WorkqPc → WorkqPc
  | .idle => .idle
  | .pressedReschedule => .pressedLock
  | .pressedLock => .pressedSet
  | .pressedSet => .pressedGreenOn
  | .pressedGreenOn => .pressedRedOn
  | .pressedRedOn => .pressedUnlock
  | .pressedUnlock => .idle
  | .releasedCancel => .offLock .released
  | .offLock w => .offGreen w
  | .offGreen w => .offRed w
  | .offRed w => .offUnlock w
  | .offUnlock w => .offReschedule w
  | .offReschedule _ => .idle
  | .reboot => .rebooting
  | .rebooting => .rebooting
  | .advertise => .idle

namespace Device

/-- A thread makes a call. -/
def make (d : Device) (t : Thread) (k : Option Call) : Option Device :=
  k.bind fun k => if d.CanCall k then some (d.effect t k) else none

/-- The next call of main. -/
def mainStep (d : Device) (expired : Bool) : Option Device :=
  (d.make .main d.main.call).map ({ · with main := d.main.next d expired })

/-- The next call of a Bluetooth callback. -/
def btStep (d : Device) : Option Device :=
  (d.make .bt d.bt.call).map ({ · with bt := d.bt.next d })

/-- The next call of the work queue thread, which takes an item when it has none. -/
def workqStep (d : Device) : Option Device :=
  if d.workq = .idle then
    d.work.take.map fun (w, work) => { d with work := work, workq := w.handler }
  else (d.make .workq d.workq.call).map ({ · with workq := d.workq.next })

/-- `fwloader_isr_cb_pinhole_button_pressed_or_released`, with what `fwloader_button_get` returns -/
def buttonIsr (d : Device) (isPressed : Bool) : Device :=
  { d with work := d.work.submit (if isPressed then .pressed else .released) }

/-- `bt_ready` -/
def btReady (d : Device) (err : Int32) : Device :=
  if err ≠ 0 then d else { d with work := d.work.submit .advertise }

end Device

/-- The next call of a thread, the beginning of a Bluetooth callback, an edge at the button, or the
expiry of a delay. -/
inductive Event
  | main (expired : Bool)
  | bt
  | workq
  | connected (err : UInt8)
  | disconnected (reason : UInt8)
  | btReady (err : Int32)
  | edge (isPressed : Bool)
  | expire (w : Work)
deriving DecidableEq

/-- The thread that takes the step. -/
def Event.thread : Event → Thread
  | .main _ => .main
  | .bt | .connected _ | .disconnected _ => .bt
  | .workq => .workq
  | .btReady _ | .edge _ | .expire _ => .isr

/-- The device as a system. Bluetooth callbacks come one after the other and only when Bluetooth is
enabled, edges when the interrupt is. -/
def device : System Device Event where
  init := .boot
  step d
    | .main expired => d.mainStep expired
    | .bt => d.btStep
    | .workq => d.workqStep
    | .connected err =>
      if d.btEnabled ∧ d.bt = .idle then
        some (if err ≠ 0 then d else { d with bt := .setFlag true })
      else none
    | .disconnected _ =>
      if d.btEnabled ∧ d.bt = .idle then some { d with bt := .setFlag false } else none
    | .btReady err => if d.btEnabled then some (d.btReady err) else none
    | .edge isPressed => if d.buttonInt then some (d.buttonIsr isPressed) else none
    | .expire w => (d.work.expire w).map fun work => { d with work := work }

/-- No button handler is running. -/
def BetweenHandlers (d : Device) : Prop := d.workq = .idle ∨ d.workq = .advertise

instance : DecidablePred BetweenHandlers := fun _ => inferInstanceAs (Decidable (_ ∨ _))

end FwLoader.Threads
