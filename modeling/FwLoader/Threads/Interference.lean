import FwLoader.Threads.Device

/-!
# What the threads may change

`Frame` says what a step of one thread leaves to the others, and `Local` what each thread can rely
on: which calls it makes with the mutex, that it finds the button not pressed where it has tested
that, and how far the initialisation has come. No thread disturbs what another one relies on, so all
of it holds in every state reached.
-/

namespace FwLoader.Threads

open Foundations

/-! ## How far the threads have come -/

namespace MainPc

/-- The order of the calls of main. -/
def order : List MainPc :=
  [.ledInitGpio .red, .ledInitGpio .green, .redSetTrue, .buttonCbInit, .redSetFalse,
    .gpioPinSet .red, .gpioDisconnect .red, .pwmSet .red,
    .gpioPinSet .green, .gpioDisconnect .green, .pwmSet .green, .setPwmMode,
    .startSmpBluetoothAdverts, .ledLock, .isPressed, .redOn, .ledUnlock,
    .testReboot, .testPressed, .watchdogFeed, .testTimeout, .rebooting]

def pos (pc : MainPc) : ℕ := order.idxOf pc

/-- One call has been made before another one comes next. -/
def Done (pc next : MainPc) : Prop := pc.pos < next.pos

instance (pc next : MainPc) : Decidable (pc.Done next) := inferInstanceAs (Decidable (_ < _))

theorem mem_order (pc : MainPc) : pc ∈ order := by
  cases pc with
  | ledInitGpio c | gpioPinSet c | gpioDisconnect c | pwmSet c => cases c <;> decide
  | _ => decide

theorem pos_inj {pc pc' : MainPc} : pc.pos = pc'.pos ↔ pc = pc' :=
  List.idxOf_inj (mem_order pc)

/-- Up to the start of advertising, main makes its calls one after the other. -/
theorem pos_next (d : Device) (expired : Bool) (pc : MainPc) :
    (pc.next d expired).pos = pc.pos + 1 ∨
      startSmpBluetoothAdverts.pos < pc.pos ∧
        startSmpBluetoothAdverts.pos < (pc.next d expired).pos := by
  cases pc with
  | ledInitGpio c | gpioPinSet c | gpioDisconnect c | pwmSet c => cases c <;> exact .inl rfl
  | isPressed | testReboot | testPressed | testTimeout =>
    rw [next]
    split <;> decide
  | ledUnlock | redOn | rebooting | watchdogFeed => exact .inr ⟨by decide, by rw [next]; decide⟩
  | _ => exact .inl rfl

theorem done_next {pc : MainPc} (d : Device) (expired : Bool) {q : MainPc}
    (hq : q.pos ≤ startSmpBluetoothAdverts.pos) :
    q.Done (pc.next d expired) ↔ q.Done pc ∨ pc = q := by
  have hpos := pos_next d expired pc
  have hinj : pc.pos = q.pos ↔ pc = q := pos_inj
  unfold Done
  rw [← hinj]
  omega

/-- Main has the mutex. -/
def HasMutex (pc : MainPc) : Prop := pc = .isPressed ∨ pc = .redOn ∨ pc = .ledUnlock

end MainPc

namespace BtPc

/-- The Bluetooth thread has the mutex. -/
def HasMutex : BtPc → Prop
  | .isPressed _ | .ledOff _ | .ledOn _ | .ledUnlock _ => True
  | _ => False

/-- What the running callback has set the flag to. -/
def flag : BtPc → Option Bool
  | .ledLock b | .isPressed b | .ledOff b | .ledOn b | .ledUnlock b => some b
  | .submitAdvertise => some false
  | .idle | .setFlag _ => none

end BtPc

namespace WorkqPc

/-- The work queue thread has the mutex. -/
def HasMutex : WorkqPc → Prop
  | .pressedSet | .pressedGreenOn | .pressedRedOn | .pressedUnlock
  | .offGreen _ | .offRed _ | .offUnlock _ => True
  | _ => False

/-- The handler of a press has set the flag, or the handler of the time-out is running. -/
def AfterPress : WorkqPc → Prop
  | .pressedGreenOn | .pressedRedOn | .pressedUnlock
  | .offLock .timeout | .offGreen .timeout | .offRed .timeout | .offUnlock .timeout
  | .offReschedule .timeout => True
  | _ => False

end WorkqPc

/-! ## What a thread leaves to the others -/

/-- The mutex is only taken when it is free and only released by its owner. -/
def MutexStep (t : Thread) (m m' : Option Thread) : Prop :=
  m' = m ∨ m = none ∧ m' = some t ∨ m = some t ∧ m' = none

/-- An LED is only switched by the owner of the mutex. -/
def LedStep (t : Thread) (d d' : Device) (c : Color) : Prop :=
  d'.leds c = d.leds c ∨
    d.gFwloaderLedMutex = some t ∧ ∃ b, d'.leds c = (d.leds c).set d.gFwloaderLedInPwmMode b

/-- What a step of a thread leaves to the others. -/
structure Frame (t : Thread) (d d' : Device) : Prop where
  main : t ≠ .main → d'.main = d.main
  bt : t ≠ .bt → d'.bt = d.bt
  workq : t ≠ .workq → d'.workq = d.workq
  mutex : MutexStep t d.gFwloaderLedMutex d'.gFwloaderLedMutex
  leds : t ≠ .main → ∀ c, LedStep t d d' c
  mode : t ≠ .main → d'.gFwloaderLedInPwmMode = d.gFwloaderLedInPwmMode
  pressed : d'.gFlagButtonPressed = d.gFlagButtonPressed ∨
    t = .workq ∧ d.gFwloaderLedMutex = some .workq ∧ d'.gFlagButtonPressed = true
  connected : t ≠ .bt → d'.gBtIsConnected = d.gBtIsConnected
  reboot : t ≠ .workq → d'.gFlagRebootRequested = d.gFlagRebootRequested
  buttonInt : t ≠ .main → d'.buttonInt = d.buttonInt
  btEnabled : t ≠ .main → d'.btEnabled = d.btEnabled
  switchedOn : (d.buttonInt = true → d'.buttonInt = true) ∧ (d.btEnabled = true → d'.btEnabled = true)
  pending : t ≠ .workq → ∀ i, i = .timeout ∨ i = .reboot → (d'.work.Pending i ↔ d.work.Pending i)
  quiet : t ≠ .workq → d.buttonInt = false → d'.work = d.work

/-- What main relies on. -/
structure MainLocal (d : Device) : Prop where
  configured : ∀ c, (d.leds c).configured = true ↔
    MainPc.Done (.ledInitGpio c) d.main ∧ ¬MainPc.Done (.gpioDisconnect c) d.main
  mode : d.gFwloaderLedInPwmMode = true ↔ MainPc.Done .setPwmMode d.main
  pwm : d.gFwloaderLedInPwmMode = false → ∀ c, (d.leds c).pwm = false
  buttonInt : d.buttonInt = true ↔ MainPc.Done .buttonCbInit d.main
  btEnabled : d.btEnabled = true ↔ MainPc.Done .startSmpBluetoothAdverts d.main
  mutex : d.gFwloaderLedMutex = some .main ↔ d.main.HasMutex
  unpressed : d.main = .redOn → d.gFlagButtonPressed = false

/-- What the Bluetooth thread relies on. -/
structure BtLocal (d : Device) : Prop where
  enabled : d.bt ≠ .idle → d.btEnabled = true
  mutex : d.gFwloaderLedMutex = some .bt ↔ d.bt.HasMutex
  flag : ∀ b, d.bt.flag = some b → d.gBtIsConnected = b
  unpressed : ∀ b, d.bt = .ledOff b ∨ d.bt = .ledOn b → d.gFlagButtonPressed = false

/-- What the work queue thread relies on. -/
structure WorkqLocal (d : Device) : Prop where
  mutex : d.gFwloaderLedMutex = some .workq ↔ d.workq.HasMutex
  afterPress : d.workq.AfterPress → d.gFlagButtonPressed = true
  timeout : d.work.Pending .timeout →
    d.gFlagButtonPressed = true ∨ d.workq = .pressedLock ∨ d.workq = .pressedSet
  quiet : d.buttonInt = false → d.workq = .idle ∧ d.work = .empty ∧ d.gFlagButtonPressed = false

/-- What a thread relies on. -/
def Local : Thread → Device → Prop
  | .main => MainLocal
  | .bt => BtLocal
  | .workq => WorkqLocal
  | .isr => fun _ => True

section

variable {d d' : Device} {t : Thread} {k : Call}

/-! ## Calls -/

@[simp] theorem effect_main : (d.effect t k).main = d.main := by cases k <;> rfl

@[simp] theorem effect_bt : (d.effect t k).bt = d.bt := by cases k <;> rfl

@[simp] theorem effect_workq : (d.effect t k).workq = d.workq := by cases k <;> rfl

theorem effect_mutex {u : Thread} : (d.effect t k).gFwloaderLedMutex = some u ↔
    k = .ledLock ∧ t = u ∨ k ≠ .ledLock ∧ k ≠ .ledUnlock ∧ d.gFwloaderLedMutex = some u := by
  cases k <;> simp [Device.effect, Device.updateLed]

/-- A thread has the mutex from the lock up to the unlock. -/
theorem effect_hasMutex {H H' : Prop} (hmutex : d.gFwloaderLedMutex = some t ↔ H)
    (hnext : H' ↔ k = .ledLock ∨ H ∧ k ≠ .ledUnlock) :
    (d.effect t k).gFwloaderLedMutex = some t ↔ H' := by
  rw [effect_mutex, hmutex, hnext]
  by_cases hlock : k = .ledLock
  · simp [hlock]
  · simp [hlock, and_comm]

theorem effect_mode : (d.effect t k).gFwloaderLedInPwmMode =
    (decide (k = .setPwmMode) || d.gFwloaderLedInPwmMode) := by
  cases k <;> rfl

theorem effect_pressed : (d.effect t k).gFlagButtonPressed =
    (decide (k = .setPressed) || d.gFlagButtonPressed) := by
  cases k <;> rfl

theorem effect_buttonInt :
    (d.effect t k).buttonInt = (decide (k = .buttonInit) || d.buttonInt) := by
  cases k <;> rfl

theorem effect_btEnabled : (d.effect t k).btEnabled = (decide (k = .btEnable) || d.btEnabled) := by
  cases k <;> rfl

/-- What a call makes of an LED. -/
def Call.onLed (inPwmMode : Bool) (c : Color) (l : Led) : Call → Led
  | .ledInitGpio c' => if c = c' then l.initGpio else l
  | .gpioPinSet c' => if c = c' then l.gpioPinSet false else l
  | .gpioDisconnect c' => if c = c' then l.gpioDisconnect else l
  | .pwmSet c' => if c = c' then l.pwmSet false else l
  | .ledSet c' isOn => if c = c' then l.set inPwmMode isOn else l
  | _ => l

theorem updateLed_leds (c c' : Color) (f : Led → Led) :
    (d.updateLed c' f).leds c = if c = c' then f (d.leds c) else d.leds c := by
  by_cases hc : c = c'
  · subst hc
    rw [if_pos rfl]
    exact Function.update_self _ _ _
  · rw [if_neg hc]
    exact Function.update_of_ne hc _ _

theorem effect_leds (c : Color) :
    (d.effect t k).leds c = k.onLed d.gFwloaderLedInPwmMode c (d.leds c) := by
  cases k with
  | ledInitGpio c' | gpioPinSet c' | gpioDisconnect c' | pwmSet c' | ledSet c' isOn =>
    rw [Device.effect, updateLed_leds]
    rfl
  | _ => rfl

/-- Only the initialisation changes whether the GPIO is an output. -/
theorem effect_configured (c : Color) : ((d.effect t k).leds c).configured = true ↔
    k = .ledInitGpio c ∨ k ≠ .gpioDisconnect c ∧ (d.leds c).configured = true := by
  rw [effect_leds]
  cases k with
  | ledInitGpio c' | gpioPinSet c' | gpioDisconnect c' | pwmSet c' | ledSet c' isOn =>
    simp only [Call.onLed]
    grind [Led.initGpio, Led.gpioPinSet, Led.gpioDisconnect, Led.pwmSet, Led.set]
  | _ => simp [Call.onLed]

/-- Before the PWM mode is on, no call switches a PWM channel on. -/
theorem effect_pwm {c : Color} (hmode : d.gFwloaderLedInPwmMode = false)
    (hpwm : (d.leds c).pwm = false) : ((d.effect t k).leds c).pwm = false := by
  rw [effect_leds, hmode]
  cases k with
  | ledInitGpio c' | gpioPinSet c' | gpioDisconnect c' | pwmSet c' | ledSet c' isOn =>
    simp only [Call.onLed]
    split
    · first
      | exact hpwm
      | rfl
    · exact hpwm
  | _ => exact hpwm

theorem make_eq_some {call : Option Call} (h : d.make t call = some d') :
    ∃ k, call = some k ∧ d.CanCall k ∧ d' = d.effect t k := by
  obtain ⟨k, hk, hcall⟩ := Option.bind_eq_some_iff.mp h
  obtain ⟨hcan, hd'⟩ := Option.ite_none_right_eq_some.mp hcall
  exact ⟨k, hk, hcan, (Option.some.inj hd').symm⟩

/-- Which calls a thread makes. -/
def MayCall (t : Thread) : Call → Prop
  | .read | .ledLock | .ledUnlock | .ledSet _ _ => True
  | .ledInitGpio _ | .gpioPinSet _ | .gpioDisconnect _ | .pwmSet _
  | .setPwmMode | .buttonInit | .btEnable => t = .main
  | .setConnected _ => t = .bt
  | .submit w => t = .bt ∧ w = .advertise
  | .setPressed | .requestReboot | .reschedule _ | .cancel _ => t = .workq

/-- Which calls a thread makes only with the mutex. -/
def NeedsMutex (t : Thread) : Call → Prop
  | .ledUnlock | .setPressed => True
  | .ledSet _ _ => t ≠ .main
  | _ => False

/-- What a call leaves to the other threads. -/
theorem frame_effect (hmay : MayCall t k) (hcan : d.CanCall k)
    (hneeds : NeedsMutex t k → d.gFwloaderLedMutex = some t)
    (hint : t = .bt → d.buttonInt = true) : Frame t d (d.effect t k) where
  main _ := effect_main
  bt _ := effect_bt
  workq _ := effect_workq
  mutex := by
    cases k with
    | ledLock => exact .inr (.inl ⟨hcan rfl, rfl⟩)
    | ledUnlock => exact .inr (.inr ⟨hneeds trivial, rfl⟩)
    | _ => exact .inl rfl
  leds ht c := by
    unfold LedStep
    cases k with
    | ledInitGpio c' | gpioPinSet c' | gpioDisconnect c' | pwmSet c' => exact absurd hmay ht
    | ledSet c' isOn =>
      rw [effect_leds, Call.onLed]
      split
      · exact .inr ⟨hneeds ht, isOn, rfl⟩
      · exact .inl rfl
    | _ => exact .inl rfl
  mode ht := by cases k <;> first | rfl | exact absurd hmay ht
  pressed := by
    cases k with
    | setPressed =>
      obtain rfl : t = .workq := hmay
      exact .inr ⟨rfl, hneeds trivial, rfl⟩
    | _ => exact .inl rfl
  connected ht := by cases k <;> first | rfl | exact absurd hmay ht
  reboot ht := by cases k <;> first | rfl | exact absurd hmay ht
  buttonInt ht := by cases k <;> first | rfl | exact absurd hmay ht
  btEnabled ht := by cases k <;> first | rfl | exact absurd hmay ht
  switchedOn := by
    rw [effect_buttonInt, effect_btEnabled, Bool.or_eq_true, Bool.or_eq_true]
    exact ⟨.inr, .inr⟩
  pending ht i hi := by
    cases k with
    | submit w =>
      obtain ⟨-, rfl⟩ := hmay
      refine WorkQueue.pending_submit_of_ne ?_
      rcases hi with rfl | rfl <;> exact nofun
    | reschedule w | cancel w => exact absurd hmay ht
    | _ => exact Iff.rfl
  quiet ht hquiet := by
    cases k with
    | submit w => exact absurd (hint hmay.1) (by simp [hquiet])
    | reschedule w | cancel w => exact absurd hmay ht
    | _ => rfl

theorem Frame.refl (t : Thread) (d : Device) : Frame t d d where
  main _ := rfl
  bt _ := rfl
  workq _ := rfl
  mutex := .inl rfl
  leds _ _ := .inl rfl
  mode _ := rfl
  pressed := .inl rfl
  connected _ := rfl
  reboot _ := rfl
  buttonInt _ := rfl
  btEnabled _ := rfl
  switchedOn := ⟨id, id⟩
  pending _ _ _ := Iff.rfl
  quiet _ _ := rfl

/-! ## Main -/

/-- A step of main is a call. -/
theorem mainStep_eq_some {expired : Bool} (hstep : d.mainStep expired = some d') :
    ∃ k, d.main.call = some k ∧ d.CanCall k ∧
      d' = { d.effect .main k with main := d.main.next d expired } := by
  obtain ⟨d₁, hmake, rfl⟩ := Option.map_eq_some_iff.mp hstep
  obtain ⟨k, hk, hcan, rfl⟩ := make_eq_some hmake
  exact ⟨k, hk, hcan, rfl⟩

/-- Where main makes which call of the initialisation. -/
theorem MainPc.call_places {pc : MainPc} (hk : pc.call = some k) :
    (∀ c, k = .ledInitGpio c ↔ pc = .ledInitGpio c) ∧
      (∀ c, k = .gpioDisconnect c ↔ pc = .gpioDisconnect c) ∧
      (k = .setPwmMode ↔ pc = .setPwmMode) ∧ (k = .buttonInit ↔ pc = .buttonCbInit) ∧
      (k = .btEnable ↔ pc = .startSmpBluetoothAdverts) := by
  cases pc with
  | rebooting => exact nomatch hk
  | _ =>
    obtain rfl := Option.some.inj hk
    simp

theorem MainPc.mayCall {pc : MainPc} (hk : pc.call = some k) :
    MayCall .main k ∧ (NeedsMutex .main k → pc.HasMutex) := by
  cases pc with
  | rebooting => exact nomatch hk
  | _ =>
    obtain rfl := Option.some.inj hk
    simp [MayCall, NeedsMutex, HasMutex]

theorem mainLocal_boot : MainLocal .boot where
  configured c := by cases c <;> decide
  mode := by decide
  pwm _ _ := rfl
  buttonInt := by decide
  btEnabled := by decide
  mutex := by simp [Device.boot, MainPc.HasMutex]
  unpressed := nofun

theorem MainPc.hasMutex_next {pc : MainPc} (hk : pc.call = some k) (d : Device) (expired : Bool) :
    (pc.next d expired).HasMutex ↔ k = .ledLock ∨ pc.HasMutex ∧ k ≠ .ledUnlock := by
  cases pc with
  | rebooting => exact nomatch hk
  | ledInitGpio c | pwmSet c =>
    obtain rfl := Option.some.inj hk
    cases c <;> simp [next, HasMutex]
  | isPressed | testReboot | testPressed | testTimeout =>
    obtain rfl := Option.some.inj hk
    rw [next]
    split <;> simp [HasMutex]
  | _ =>
    obtain rfl := Option.some.inj hk
    simp [next, HasMutex]

theorem MainPc.eq_isPressed_of_next {pc : MainPc} {expired : Bool}
    (h : pc.next d expired = .redOn) : pc = .isPressed ∧ d.gFlagButtonPressed = false := by
  cases pc with
  | isPressed => simpa [next] using h
  | ledInitGpio c | pwmSet c => cases c <;> exact nomatch h
  | testReboot | testPressed | testTimeout =>
    rw [next] at h
    split at h <;> exact nomatch h
  | _ => exact nomatch h

theorem mainLocal_mainStep {expired : Bool} (h : MainLocal d)
    (hstep : d.mainStep expired = some d') :
    MainLocal d' := by
  obtain ⟨k, hk, hcan, rfl⟩ := mainStep_eq_some hstep
  obtain ⟨hinit, hdisc, hpwm, hint, hbt⟩ := MainPc.call_places hk
  refine ⟨fun c => ?_, ?_, fun hmode c => ?_, ?_, ?_, ?_, fun hnext => ?_⟩
  · show ((d.effect .main k).leds c).configured = true ↔ _
    have hc₁ : (MainPc.ledInitGpio c).pos ≤ MainPc.startSmpBluetoothAdverts.pos := by
      cases c <;> decide
    have hc₂ : (MainPc.gpioDisconnect c).pos ≤ MainPc.startSmpBluetoothAdverts.pos := by
      cases c <;> decide
    rw [effect_configured, hinit, Ne, hdisc, h.configured, MainPc.done_next _ _ hc₁,
      MainPc.done_next _ _ hc₂]
    by_cases hpc : d.main = .ledInitGpio c
    · have hnot : ¬MainPc.Done (.gpioDisconnect c) d.main := by
        rw [hpc]
        cases c <;> decide
      refine iff_of_true (.inl hpc) ⟨.inr hpc, ?_⟩
      rintro (hdone | hpc')
      · exact hnot hdone
      · exact nomatch hpc.symm.trans hpc'
    · by_cases hpc' : d.main = .gpioDisconnect c
      · simp [hpc']
      · simp [hpc, hpc']
  · show (d.effect .main k).gFwloaderLedInPwmMode = true ↔ _
    rw [effect_mode, MainPc.done_next _ _ (by decide), ← h.mode, Bool.or_eq_true, decide_eq_true_iff,
      hpwm, or_comm]
  · have hmode' : (d.effect .main k).gFwloaderLedInPwmMode = false := hmode
    rw [effect_mode, Bool.or_eq_false_iff] at hmode'
    exact effect_pwm hmode'.2 (h.pwm hmode'.2 c)
  · show (d.effect .main k).buttonInt = true ↔ _
    rw [effect_buttonInt, MainPc.done_next _ _ (by decide), ← h.buttonInt, Bool.or_eq_true,
      decide_eq_true_iff, hint, or_comm]
  · show (d.effect .main k).btEnabled = true ↔ _
    rw [effect_btEnabled, MainPc.done_next _ _ (by decide), ← h.btEnabled, Bool.or_eq_true,
      decide_eq_true_iff, hbt, or_comm]
  · exact effect_hasMutex h.mutex (MainPc.hasMutex_next hk d expired)
  · obtain ⟨hpc, hpressed⟩ := MainPc.eq_isPressed_of_next hnext
    rw [hpc] at hk
    obtain rfl := Option.some.inj hk
    exact hpressed

theorem frame_mainStep {expired : Bool} (h : MainLocal d) (hstep : d.mainStep expired = some d') :
    Frame .main d d' := by
  obtain ⟨k, hk, hcan, rfl⟩ := mainStep_eq_some hstep
  obtain ⟨hmay, hneeds⟩ := MainPc.mayCall hk
  have hframe := frame_effect hmay hcan (fun hn => h.mutex.mpr (hneeds hn)) nofun
  exact { hframe with main := fun h => absurd rfl h }

/-! ## The Bluetooth thread -/

/-- A step of a Bluetooth callback is a call. -/
theorem btStep_eq_some (hstep : d.btStep = some d') :
    ∃ k, d.bt.call = some k ∧ d.CanCall k ∧ d' = { d.effect .bt k with bt := d.bt.next d } := by
  obtain ⟨d₁, hmake, rfl⟩ := Option.map_eq_some_iff.mp hstep
  obtain ⟨k, hk, hcan, rfl⟩ := make_eq_some hmake
  exact ⟨k, hk, hcan, rfl⟩

theorem BtPc.mayCall {pc : BtPc} (hk : pc.call = some k) :
    MayCall .bt k ∧ (NeedsMutex .bt k → pc.HasMutex) := by
  cases pc with
  | idle => exact nomatch hk
  | _ =>
    obtain rfl := Option.some.inj hk
    simp [MayCall, NeedsMutex, HasMutex]

theorem BtPc.hasMutex_next {pc : BtPc} (hk : pc.call = some k) (d : Device) :
    (pc.next d).HasMutex ↔ k = .ledLock ∨ pc.HasMutex ∧ k ≠ .ledUnlock := by
  cases pc with
  | idle => exact nomatch hk
  | isPressed b | ledUnlock b =>
    obtain rfl := Option.some.inj hk
    rw [next]
    split <;> simp [HasMutex]
  | _ =>
    obtain rfl := Option.some.inj hk
    simp [next, HasMutex]

/-- The flag is what the running callback has set it to. -/
theorem BtPc.connected_of_flag_next {b : Bool} (hk : d.bt.call = some k)
    (hflag : ∀ b, d.bt.flag = some b → d.gBtIsConnected = b) (hb : (d.bt.next d).flag = some b) :
    (d.effect t k).gBtIsConnected = b := by
  cases hpc : d.bt with
  | idle => exact nomatch hpc ▸ hk
  | submitAdvertise => exact nomatch hpc ▸ hb
  | setFlag b' =>
    rw [hpc] at hk hb
    obtain rfl := Option.some.inj hk
    exact Option.some.inj hb
  | isPressed b' =>
    rw [hpc] at hk hb
    obtain rfl := Option.some.inj hk
    refine hflag b ?_
    rw [hpc]
    rw [next] at hb
    split at hb <;> exact hb
  | ledUnlock b' =>
    rw [hpc] at hk hb
    obtain rfl := Option.some.inj hk
    refine hflag b ?_
    rw [hpc]
    cases b' with
    | false => exact hb
    | true => exact nomatch hb
  | _ =>
    rw [hpc] at hk hb
    obtain rfl := Option.some.inj hk
    exact hflag b (by rw [hpc]; exact hb)

/-- The button is not pressed where it has been tested. -/
theorem BtPc.unpressed_next {b : Bool} (hk : d.bt.call = some k)
    (hunpressed : ∀ b, d.bt = .ledOff b ∨ d.bt = .ledOn b → d.gFlagButtonPressed = false)
    (hb : d.bt.next d = .ledOff b ∨ d.bt.next d = .ledOn b) :
    (d.effect .bt k).gFlagButtonPressed = false := by
  have hpressed : d.gFlagButtonPressed = false ∧ k ≠ .setPressed := by
    cases hpc : d.bt with
    | isPressed b' =>
      rw [hpc] at hk hb
      obtain rfl := Option.some.inj hk
      rw [next] at hb
      split at hb
      · exact absurd hb (by simp)
      · rename_i hnot
        exact ⟨by simpa using hnot, nofun⟩
    | ledOff b' =>
      rw [hpc] at hk
      obtain rfl := Option.some.inj hk
      exact ⟨hunpressed b' (.inl hpc), nofun⟩
    | ledUnlock b' =>
      rw [hpc] at hb
      rw [next] at hb
      split at hb <;> exact absurd hb (by simp)
    | _ =>
      rw [hpc] at hb
      exact absurd hb (by simp [next])
  rw [effect_pressed, hpressed.1, decide_eq_false hpressed.2, Bool.or_false]

theorem btLocal_boot : BtLocal .boot where
  enabled h := absurd rfl h
  mutex := by simp [Device.boot, BtPc.HasMutex]
  flag := nofun
  unpressed := by simp [Device.boot]

theorem btLocal_btStep (h : BtLocal d) (hstep : d.btStep = some d') : BtLocal d' := by
  obtain ⟨k, hk, hcan, rfl⟩ := btStep_eq_some hstep
  have hrunning : d.bt ≠ .idle := by
    intro hidle
    exact nomatch hidle ▸ hk
  refine ⟨fun _ => ?_, effect_hasMutex h.mutex (BtPc.hasMutex_next hk d),
    fun b hb => BtPc.connected_of_flag_next hk h.flag hb, fun b hb => ?_⟩
  · show (d.effect .bt k).btEnabled = true
    rw [effect_btEnabled, h.enabled hrunning, Bool.or_true]
  · exact BtPc.unpressed_next hk h.unpressed hb

theorem frame_btStep (h : BtLocal d) (hint : d.btEnabled = true → d.buttonInt = true)
    (hstep : d.btStep = some d') : Frame .bt d d' := by
  obtain ⟨k, hk, hcan, rfl⟩ := btStep_eq_some hstep
  obtain ⟨hmay, hneeds⟩ := BtPc.mayCall hk
  have hrunning : d.bt ≠ .idle := by
    intro hidle
    exact nomatch hidle ▸ hk
  have hframe := frame_effect hmay hcan (fun hn => h.mutex.mpr (hneeds hn))
    fun _ => hint (h.enabled hrunning)
  exact { hframe with bt := fun h => absurd rfl h }

/-- A callback begins. -/
theorem btLocal_setFlag (h : BtLocal d) (hbt : d.btEnabled = true) (hidle : d.bt = .idle)
    (b : Bool) : BtLocal { d with bt := .setFlag b } where
  enabled _ := hbt
  mutex := by
    have hmutex := h.mutex
    rw [hidle] at hmutex
    exact hmutex
  flag := nofun
  unpressed := by simp

theorem frame_setFlag (b : Bool) : Frame .bt d { d with bt := .setFlag b } :=
  { Frame.refl .bt d with bt := fun h => absurd rfl h }

/-! ## The work queue thread -/

/-- A step of the work queue thread takes an item or is a call. -/
theorem workqStep_cases (hstep : d.workqStep = some d') :
    (∃ w work, d.workq = .idle ∧ d.work.take = some (w, work) ∧
      d' = { d with work := work, workq := w.handler }) ∨
    ∃ k, d.workq.call = some k ∧ d.CanCall k ∧
      d' = { d.effect .workq k with workq := d.workq.next } := by
  unfold Device.workqStep at hstep
  split at hstep
  · rename_i hidle
    obtain ⟨⟨w, work⟩, htake, rfl⟩ := Option.map_eq_some_iff.mp hstep
    exact .inl ⟨w, work, hidle, htake, rfl⟩
  · obtain ⟨d₁, hmake, rfl⟩ := Option.map_eq_some_iff.mp hstep
    obtain ⟨k, hk, hcan, rfl⟩ := make_eq_some hmake
    exact .inr ⟨k, hk, hcan, rfl⟩

theorem WorkqPc.mayCall {pc : WorkqPc} (hk : pc.call = some k) :
    MayCall .workq k ∧ (NeedsMutex .workq k → pc.HasMutex) := by
  cases pc with
  | idle | rebooting => exact nomatch hk
  | _ =>
    obtain rfl := Option.some.inj hk
    simp [MayCall, NeedsMutex, HasMutex]

theorem WorkqPc.hasMutex_next {pc : WorkqPc} (hk : pc.call = some k) :
    pc.next.HasMutex ↔ k = .ledLock ∨ pc.HasMutex ∧ k ≠ .ledUnlock := by
  cases pc with
  | idle | rebooting => exact nomatch hk
  | _ =>
    obtain rfl := Option.some.inj hk
    simp [next, HasMutex]

theorem workqLocal_boot : WorkqLocal .boot where
  mutex := by simp [Device.boot, WorkqPc.HasMutex]
  afterPress := nofun
  timeout h := by simp [Device.boot, WorkQueue.Pending, WorkQueue.empty] at h
  quiet _ := ⟨rfl, rfl, rfl⟩

theorem WorkqPc.afterPress_next {pc : WorkqPc} (hk : pc.call = some k) (h : pc.next.AfterPress) :
    k = .setPressed ∨ pc.AfterPress := by
  cases pc with
  | idle | rebooting => exact nomatch hk
  | pressedSet =>
    obtain rfl := Option.some.inj hk
    exact .inl rfl
  | offLock w | offGreen w | offRed w | offUnlock w =>
    cases w with
    | released => exact absurd h id
    | timeout => exact .inr trivial
  | pressedGreenOn | pressedRedOn => exact .inr trivial
  | _ => exact absurd h id

/-- The time-out is only started by a handler that goes on to set the flag. -/
theorem WorkqLocal.timeout_next (h : WorkqLocal d) (hk : d.workq.call = some k)
    (hpending : (d.effect .workq k).work.Pending .timeout) :
    (d.effect .workq k).gFlagButtonPressed = true ∨
      d.workq.next = .pressedLock ∨ d.workq.next = .pressedSet := by
  rw [effect_pressed, Bool.or_eq_true, decide_eq_true_iff]
  -- a time-out that was pending before is covered by the place the handler comes from
  have hkeep : d.work.Pending .timeout →
      (k = .setPressed ∨ d.gFlagButtonPressed = true) ∨
        d.workq.next = .pressedLock ∨ d.workq.next = .pressedSet := by
    intro hold
    rcases h.timeout hold with hpressed | hpc | hpc
    · exact .inl (.inr hpressed)
    · exact .inr (.inr (by rw [hpc]; rfl))
    · rw [hpc] at hk
      exact .inl (.inl (Option.some.inj hk).symm)
  cases hpc : d.workq with
  | idle | rebooting =>
    rw [hpc] at hk
    cases hk
  | pressedReschedule => exact .inr (.inl rfl)
  | releasedCancel | offReschedule w =>
    have hk' := hk
    rw [hpc] at hk'
    obtain rfl := Option.some.inj hk'
    simp only [Device.effect, WorkQueue.pending_cancel, WorkQueue.pending_reschedule] at hpending
    rw [hpc] at hkeep
    first
    | exact hkeep hpending.2
    | exact hkeep (hpending.resolve_left (by simp))
  | _ =>
    have hk' := hk
    rw [hpc] at hk'
    obtain rfl := Option.some.inj hk'
    rw [hpc] at hkeep
    exact hkeep hpending

theorem workqLocal_workqStep (h : WorkqLocal d) (hstep : d.workqStep = some d') :
    WorkqLocal d' := by
  obtain ⟨w, work, hidle, htake, rfl⟩ | ⟨k, hk, hcan, rfl⟩ := workqStep_cases hstep
  · have hpressed : d.work.Pending .timeout → d.gFlagButtonPressed = true := by
      intro hpending
      rcases h.timeout hpending with hpressed | hpc | hpc
      · exact hpressed
      · exact nomatch hidle.symm.trans hpc
      · exact nomatch hidle.symm.trans hpc
    refine ⟨?_, fun hafter => ?_, fun hpending => .inl ?_, fun hquiet => ?_⟩
    · have hmutex := h.mutex
      rw [hidle] at hmutex
      exact hmutex.trans (by cases w <;> exact Iff.rfl)
    · cases w with
      | timeout => exact hpressed (WorkQueue.pending_taken htake)
      | _ => exact absurd hafter id
    · by_cases hw : w = .timeout
      · subst hw
        exact hpressed (WorkQueue.pending_taken htake)
      · exact hpressed ((WorkQueue.pending_of_take htake (Ne.symm hw)).mp hpending)
    · rw [(h.quiet hquiet).2.1] at htake
      exact nomatch htake
  · refine ⟨effect_hasMutex h.mutex (WorkqPc.hasMutex_next hk), fun hafter => ?_,
      h.timeout_next hk, fun hquiet => ?_⟩
    · show (d.effect .workq k).gFlagButtonPressed = true
      rw [effect_pressed, Bool.or_eq_true, decide_eq_true_iff]
      exact (WorkqPc.afterPress_next hk hafter).imp id h.afterPress
    · have hquiet' : (d.effect .workq k).buttonInt = false := hquiet
      rw [effect_buttonInt, Bool.or_eq_false_iff] at hquiet'
      rw [(h.quiet hquiet'.2).1] at hk
      exact nomatch hk

theorem frame_workqStep (h : WorkqLocal d) (hstep : d.workqStep = some d') : Frame .workq d d' := by
  obtain ⟨w, work, hidle, htake, rfl⟩ | ⟨k, hk, hcan, rfl⟩ := workqStep_cases hstep
  · exact { Frame.refl .workq d with
      workq := fun h => absurd rfl h
      pending := fun h => absurd rfl h
      quiet := fun h => absurd rfl h }
  · obtain ⟨hmay, hneeds⟩ := WorkqPc.mayCall hk
    have hframe := frame_effect hmay hcan (fun hn => h.mutex.mpr (hneeds hn)) nofun
    exact { hframe with workq := fun h => absurd rfl h }

/-! ## Interrupts -/

/-- Outside of the threads, items come into the work queue and nothing else changes. -/
theorem frame_isr {work : WorkQueue Work}
    (hpending : ∀ i, i = .timeout ∨ i = .reboot → (work.Pending i ↔ d.work.Pending i))
    (hquiet : d.buttonInt = false → work = d.work) : Frame .isr d { d with work := work } :=
  { Frame.refl .isr d with
    pending := fun _ => hpending
    quiet := fun _ => hquiet }

/-! ## No thread disturbs what another one relies on -/

theorem MutexStep.other {m m' : Option Thread} {u : Thread} (h : MutexStep u m m') (hne : t ≠ u) :
    m' = some t ↔ m = some t := by
  rcases h with rfl | ⟨rfl, rfl⟩ | ⟨rfl, rfl⟩
  · exact Iff.rfl
  · simp [hne.symm]
  · simp [hne.symm]

theorem LedStep.configured {c : Color} (h : LedStep t d d' c) :
    (d'.leds c).configured = (d.leds c).configured := by
  rcases h with h | ⟨-, b, h⟩
  · rw [h]
  · rw [h, Led.set]
    split <;> rfl

theorem LedStep.pwm {c : Color} (h : LedStep t d d' c) (hmode : d.gFwloaderLedInPwmMode = false) :
    (d'.leds c).pwm = (d.leds c).pwm := by
  rcases h with h | ⟨-, b, h⟩
  · rw [h]
  · rw [h, hmode]
    rfl

/-- Where a thread has the mutex, the others leave the button as not pressed. -/
theorem Frame.unpressed {u : Thread} (hframe : Frame u d d') (hne : t ≠ u)
    (hmutex : d.gFwloaderLedMutex = some t) (h : d.gFlagButtonPressed = false) :
    d'.gFlagButtonPressed = false := by
  rcases hframe.pressed with hpressed | ⟨rfl, howner, -⟩
  · rw [hpressed, h]
  · exact absurd (Option.some.inj (hmutex.symm.trans howner)) hne

/-- No step takes the flag back. -/
theorem Frame.unpressed_before (hframe : Frame t d d') (h : d'.gFlagButtonPressed = false) :
    d.gFlagButtonPressed = false := by
  rcases hframe.pressed with hpressed | ⟨-, -, hpressed⟩
  · rw [← hpressed, h]
  · exact nomatch hpressed.symm.trans h

/-- Where another thread has the mutex, the Bluetooth thread is not
between its lock and its unlock. -/
theorem BtLocal.not_hasMutex (h : BtLocal d) (howner : d.gFwloaderLedMutex = some t)
    (ht : t ≠ .bt) : ¬d.bt.HasMutex := by
  intro hmutex
  exact ht (Option.some.inj (howner.symm.trans (h.mutex.mpr hmutex)))

theorem MainLocal.stable {u : Thread} (h : MainLocal d) (hne : Thread.main ≠ u)
    (hframe : Frame u d d') : MainLocal d' := by
  have hmain := hframe.main hne.symm
  refine ⟨fun c => ?_, ?_, fun hmode c => ?_, ?_, ?_, ?_, fun hpc => ?_⟩
  · rw [(hframe.leds hne.symm c).configured, hmain, h.configured]
  · rw [hframe.mode hne.symm, hmain, h.mode]
  · rw [hframe.mode hne.symm] at hmode
    rw [(hframe.leds hne.symm c).pwm hmode, h.pwm hmode]
  · rw [hframe.buttonInt hne.symm, hmain, h.buttonInt]
  · rw [hframe.btEnabled hne.symm, hmain, h.btEnabled]
  · rw [hframe.mutex.other hne, hmain, h.mutex]
  · rw [hmain] at hpc
    exact hframe.unpressed hne (h.mutex.mpr (.inr (.inl hpc))) (h.unpressed hpc)

theorem BtLocal.stable {u : Thread} (h : BtLocal d) (hne : Thread.bt ≠ u)
    (hframe : Frame u d d') : BtLocal d' := by
  have hbt := hframe.bt hne.symm
  refine ⟨fun hrunning => ?_, ?_, fun b hb => ?_, fun b hpc => ?_⟩
  · rw [hbt] at hrunning
    exact hframe.switchedOn.2 (h.enabled hrunning)
  · rw [hframe.mutex.other hne, hbt, h.mutex]
  · rw [hbt] at hb
    rw [hframe.connected hne.symm, h.flag b hb]
  · rw [hbt] at hpc
    have hmutex : d.bt.HasMutex := by rcases hpc with hpc | hpc <;> rw [hpc] <;> trivial
    exact hframe.unpressed hne (h.mutex.mpr hmutex) (h.unpressed b hpc)

theorem WorkqLocal.stable {u : Thread} (h : WorkqLocal d) (hne : Thread.workq ≠ u)
    (hframe : Frame u d d') : WorkqLocal d' := by
  have hworkq := hframe.workq hne.symm
  have hpressed : d'.gFlagButtonPressed = d.gFlagButtonPressed :=
    hframe.pressed.resolve_right fun hp => hne hp.1.symm
  refine ⟨?_, fun hafter => ?_, fun hpending => ?_, fun hquiet => ?_⟩
  · rw [hframe.mutex.other hne, hworkq, h.mutex]
  · rw [hworkq] at hafter
    rw [hpressed, h.afterPress hafter]
  · rw [hframe.pending hne.symm _ (.inl rfl)] at hpending
    rw [hpressed, hworkq]
    exact h.timeout hpending
  · have hquiet' : d.buttonInt = false := by
      by_contra hint
      have hon := hframe.switchedOn.1 (by simpa using hint)
      rw [hquiet] at hon
      exact nomatch hon
    rw [hworkq, hframe.quiet hne.symm hquiet', hpressed]
    exact h.quiet hquiet'

/-- A step of the device keeps what its thread relies on, and leaves what `Frame` says to the
others. -/
theorem device_step {e : Event} (h : ∀ t, Local t d) (hstep : device.step d e = some d') :
    Local e.thread d' ∧ Frame e.thread d d' := by
  have hmain : MainLocal d := h .main
  have hbt : BtLocal d := h .bt
  -- early init is over before main starts Bluetooth
  have hint : d.btEnabled = true → d.buttonInt = true := by
    rw [hmain.btEnabled, hmain.buttonInt]
    exact (Nat.lt_trans (by decide) ·)
  cases e with
  | main expired => exact ⟨mainLocal_mainStep hmain hstep, frame_mainStep hmain hstep⟩
  | bt => exact ⟨btLocal_btStep hbt hstep, frame_btStep hbt hint hstep⟩
  | workq => exact ⟨workqLocal_workqStep (h .workq) hstep, frame_workqStep (h .workq) hstep⟩
  | connected err =>
    obtain ⟨⟨henabled, hidle⟩, hnext⟩ := Option.ite_none_right_eq_some.mp hstep
    obtain rfl := Option.some.inj hnext
    split
    · exact ⟨hbt, Frame.refl .bt d⟩
    · exact ⟨btLocal_setFlag hbt henabled hidle true, frame_setFlag true⟩
  | disconnected reason =>
    obtain ⟨⟨henabled, hidle⟩, hnext⟩ := Option.ite_none_right_eq_some.mp hstep
    obtain rfl := Option.some.inj hnext
    exact ⟨btLocal_setFlag hbt henabled hidle false, frame_setFlag false⟩
  | btReady err =>
    obtain ⟨henabled, hnext⟩ := Option.ite_none_right_eq_some.mp hstep
    obtain rfl := Option.some.inj hnext
    unfold Device.btReady
    split
    · exact ⟨trivial, Frame.refl .isr d⟩
    · refine ⟨trivial, frame_isr (fun i hi => ?_) fun hoff => ?_⟩
      · refine WorkQueue.pending_submit_of_ne ?_
        rcases hi with rfl | rfl <;> exact nofun
      · exact nomatch hoff.symm.trans (hint henabled)
  | edge isPressed =>
    obtain ⟨hon, hnext⟩ := Option.ite_none_right_eq_some.mp hstep
    obtain rfl := Option.some.inj hnext
    refine ⟨trivial, frame_isr (fun i hi => ?_) fun hoff => ?_⟩
    · refine WorkQueue.pending_submit_of_ne ?_
      rcases hi with rfl | rfl <;> cases isPressed <;> exact nofun
    · exact nomatch hoff.symm.trans hon
  | expire w =>
    obtain ⟨work, hexpire, rfl⟩ := Option.map_eq_some_iff.mp hstep
    have hworkq : WorkqLocal d := h .workq
    refine ⟨trivial, frame_isr (fun i _ => WorkQueue.pending_of_expire hexpire) fun hoff => ?_⟩
    rw [(hworkq.quiet hoff).2.1] at hexpire
    exact nomatch hexpire

theorem local_stable {u : Thread} (hne : t ≠ u) (h : Local t d) (hframe : Frame u d d') :
    Local t d' := by
  cases t with
  | main => exact MainLocal.stable h hne hframe
  | bt => exact BtLocal.stable h hne hframe
  | workq => exact WorkqLocal.stable h hne hframe
  | isr => exact trivial

theorem local_boot (t : Thread) : Local t .boot := by
  cases t with
  | main => exact mainLocal_boot
  | bt => exact btLocal_boot
  | workq => exact workqLocal_boot
  | isr => exact trivial

/-- What the threads rely on holds in every state reached. -/
theorem local_of_reach {C : Device → Event → Prop} (h : device.Reach C d) (t : Thread) :
    Local t d :=
  h.relyGuarantee Event.thread Local Frame local_boot
    (fun _ _ _ hlocal _ hstep => device_step hlocal hstep)
    (fun t _ _ _ hne hlocal hframe => local_stable hne (hlocal t) hframe) t

end

end FwLoader.Threads
