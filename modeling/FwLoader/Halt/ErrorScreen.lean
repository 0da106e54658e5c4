import FwLoader.Foundations.Triples
import Mathlib.Order.Bounds.Basic

/-!
# The fatal-error screen

After a fatal error the red LED blinks an error code, and `fwloader_led_err_blink_red_led` waits for
the button: once it has been released, the next press is to reboot the device. The button is sampled
every 10 ms. Before that, `fwloader_button_cb_deinit` disconnects the pin of the button, so what is
sampled is no longer the button.
-/

namespace FwLoader.Halt

open Foundations

/-! ## The program -/

/-- The calls that the screen makes. -/
inductive ScreenCall
  | deviceIsReady
  | gpioPinInterruptDisable
  | gpioRemoveCallback
  | gpioPinDisconnect
  | gpioPinGet
  | kMsleep (ms : ℕ)
  | ledRedOn
  | ledRedOff
  | ledGreenOff
  | sysReboot
deriving DecidableEq

/-- The drivers and the kernel, as the screen uses them. -/
abbrev screenApi : Interface where
  Call := ScreenCall
  Answer
    | .deviceIsReady => Bool
    | .gpioPinInterruptDisable => ℤ
    | .gpioPinDisconnect => ℤ
    | .gpioPinGet => ℤ
    | _ => Unit

/-- `device_is_ready` -/
def deviceIsReady : Prog screenApi Bool := @Prog.perform screenApi .deviceIsReady

/-- `gpio_pin_interrupt_configure_dt` with `GPIO_INT_DISABLE` -/
def gpioPinInterruptDisable : Prog screenApi ℤ := @Prog.perform screenApi .gpioPinInterruptDisable

/-- `gpio_remove_callback` -/
def gpioRemoveCallback : Prog screenApi Unit := @Prog.perform screenApi .gpioRemoveCallback

/-- `gpio_pin_configure_dt` with `GPIO_DISCONNECTED` -/
def gpioPinDisconnect : Prog screenApi ℤ := @Prog.perform screenApi .gpioPinDisconnect

/-- `gpio_pin_get_dt` -/
def gpioPinGet : Prog screenApi ℤ := @Prog.perform screenApi .gpioPinGet

/-- `k_msleep` -/
def kMsleep (ms : ℕ) : Prog screenApi Unit := @Prog.perform screenApi (.kMsleep ms)

def ledRedOn : Prog screenApi Unit := @Prog.perform screenApi .ledRedOn

def ledRedOff : Prog screenApi Unit := @Prog.perform screenApi .ledRedOff

def ledGreenOff : Prog screenApi Unit := @Prog.perform screenApi .ledGreenOff

/-- `sys_reboot`. It does not return: what follows it in the program is not run. -/
def sysReboot : Prog screenApi Unit := @Prog.perform screenApi .sysReboot

/-- `fwloader_button_int_disable`. An error is only logged. -/
def fwloaderButtonIntDisable : Prog screenApi Unit := do
  let _ ← gpioPinInterruptDisable
  pure ()

/-- `fwloader_button_deinit`, with or without a callback to remove -/
def fwloaderButtonDeinit (hasCallback : Bool) : Prog screenApi Unit := do
  let ready ← deviceIsReady
  if ready = false then
    pure ()
  else do
    fwloaderButtonIntDisable
    if hasCallback then gpioRemoveCallback else pure ()
    -- an error is only logged
    let _ ← gpioPinDisconnect
    pure ()

/-- `fwloader_button_cb_deinit` -/
def fwloaderButtonCbDeinit : Prog screenApi Unit := fwloaderButtonDeinit true

/-- What `fwloader_button_get` makes of the result of `gpio_pin_get_dt`. -/
def isPressed (rc : ℤ) : Bool := if rc < 0 then false else rc ≠ 0

/-- `fwloader_button_get` -/
def fwloaderButtonGet : Prog screenApi Bool := do
  let rc ← gpioPinGet
  pure (isPressed rc)

/-- `DELAY_BEFORE_REBOOT_MS` -/
def delayBeforeRebootMs : ℕ := 100

/-- `check_if_button_released_and_pressed`: the result and `*p_is_button_released` afterwards. -/
def checkIfButtonReleasedAndPressed (isButtonReleased : Bool) : Prog screenApi (Bool × Bool) :=
  if isButtonReleased = false then do
    let pressed ← fwloaderButtonGet
    pure (false, !pressed)
  else do
    let pressed ← fwloaderButtonGet
    if pressed then do
      kMsleep delayBeforeRebootMs
      pure (true, isButtonReleased)
    else
      pure (false, isButtonReleased)

/-- `SLEEP_INTERVAL_MS` -/
def sleepIntervalMs : ℕ := 10

/-- One round of the inner loops of `fwloader_led_err_blink`. It leaves by a reboot. -/
def sampleButton (isButtonReleased : Bool) : Prog screenApi (Bool ⊕ Unit) := do
  kMsleep sleepIntervalMs
  let res ← checkIfButtonReleasedAndPressed isButtonReleased
  if res.1 then do
    sysReboot
    pure (.inr ())
  else
    pure (.inl res.2)

/-- One round of the outer loop of `fwloader_led_err_blink`. -/
def blinkOnce (delayBetweenBlinksMs delayAfterBlinksMs : ℕ) (isButtonReleased : Bool) :
    Prog screenApi (Bool ⊕ Unit) := do
  ledRedOn
  (Prog.times sampleButton (delayBetweenBlinksMs / sleepIntervalMs) isButtonReleased).goOn
    fun isButtonReleased => do
      ledRedOff
      Prog.times sampleButton (delayAfterBlinksMs / sleepIntervalMs) isButtonReleased

/-- `fwloader_led_err_blink` -/
def fwloaderLedErrBlink (isButtonReleased : Bool) (numBlinks : UInt32)
    (delayBetweenBlinksMs delayAfterBlinksMs : ℕ) : Prog screenApi (Bool ⊕ Unit) :=
  Prog.times (blinkOnce delayBetweenBlinksMs delayAfterBlinksMs) numBlinks.toNat isButtonReleased

/-- `NUM_BLINKS_PREFIX` -/
def numBlinksPrefix : UInt32 := 2

/-- `DELAY_BETWEEN_BLINKS_MS` -/
def delayBetweenBlinksMs : ℕ := 100

/-- `DELAY_AFTER_PREFIX_MS` -/
def delayAfterPrefixMs : ℕ := 500

/-- `DELAY_AFTER_ERR_CODE_MS` -/
def delayAfterErrCodeMs : ℕ := 1000

/-- One round of the endless loop of `fwloader_led_err_blink_red_led`: two short blinks, then the
error code. -/
def blinkErrCode (numRedBlinks : UInt32) (isButtonReleased : Bool) : Prog screenApi (Bool ⊕ Unit) :=
  (fwloaderLedErrBlink isButtonReleased numBlinksPrefix delayBetweenBlinksMs
    delayAfterPrefixMs).goOn fun isButtonReleased =>
      fwloaderLedErrBlink isButtonReleased numRedBlinks delayBetweenBlinksMs delayAfterErrCodeMs

/-- `fwloader_led_err_blink_red_led`, for `n` rounds of its endless loop. -/
def fwloaderLedErrBlinkRedLed (numRedBlinks : UInt32) (n : ℕ) : Prog screenApi (Option Unit) := do
  fwloaderButtonCbDeinit
  let pressed ← fwloaderButtonGet
  ledGreenOff
  Prog.loop (blinkErrCode numRedBlinks) n (!pressed)

/-! ## The button -/

/-- How the pin of the button is configured. -/
inductive PinMode
  | input
  | disconnected
deriving DecidableEq

/-- What the screen finds at the pin: whether the button is pressed at each sample, what a sample of
the disconnected pin gives, and the results of the two configuration calls. -/
structure Button where
  pressed : ℕ → Bool
  disconnected : ℕ → ℤ
  disconnectRc : ℤ
  interruptRc : ℤ

/-- The pin, how often it has been sampled, and the sample after which
`sys_reboot` has been called. -/
structure ScreenState where
  mode : PinMode
  samples : ℕ
  rebootedAt : Option ℕ
deriving DecidableEq

/-- The button has been set up as an input. -/
def ScreenState.start : ScreenState := ⟨.input, 0, none⟩

namespace Button

variable (B : Button)

/-- What `gpio_pin_get_dt` answers: the level of the button only while the pin is an input. -/
def pinGet (s : ScreenState) : ℤ :=
  match s.mode with
  | .input => if B.pressed s.samples then 1 else 0
  | .disconnected => B.disconnected s.samples

/-- The drivers and the kernel with this button, whose port is ready. -/
def handler : Handler screenApi ScreenState where
  answer s
    | .deviceIsReady => true
    | .gpioPinInterruptDisable => B.interruptRc
    | .gpioRemoveCallback => ()
    | .gpioPinDisconnect => B.disconnectRc
    | .gpioPinGet => B.pinGet s
    | .kMsleep _ => ()
    | .ledRedOn => ()
    | .ledRedOff => ()
    | .ledGreenOff => ()
    | .sysReboot => ()
  next s
    -- a call that fails leaves the pin as it was
    | .gpioPinDisconnect => if B.disconnectRc = 0 then { s with mode := .disconnected } else s
    | .gpioPinGet => { s with samples := s.samples + 1 }
    | .sysReboot => { s with rebootedAt := s.rebootedAt <|> some (s.samples - 1) }
    | _ => s

/-- How the pin is left by `fwloader_button_cb_deinit`. -/
def modeAfterDeinit : PinMode := if B.disconnectRc = 0 then .disconnected else .input

/-- What the screen takes for the button at each sample. -/
def seen (k : ℕ) : Bool :=
  if B.disconnectRc = 0 then isPressed (B.disconnected k) else B.pressed k

theorem isPressed_pinGet {s : ScreenState} (h : s.mode = B.modeAfterDeinit) :
    isPressed (B.pinGet s) = B.seen s.samples := by
  unfold pinGet seen
  rw [h, modeAfterDeinit]
  by_cases hrc : B.disconnectRc = 0
  · rw [if_pos hrc, if_pos hrc]
  · rw [if_neg hrc, if_neg hrc]
    cases B.pressed s.samples <;> rfl

end Button

/-! ## Waiting for the press -/

/-- The button is pressed at sample `k` and was released at an earlier one. -/
def PressAfterRelease (r : ℕ → Bool) (k : ℕ) : Prop := r k = true ∧ ∃ i < k, r i = false

/-- The first press after a release. -/
def FirstPress (r : ℕ → Bool) (k : ℕ) : Prop := IsLeast {j | PressAfterRelease r j} k

/-- The device is waiting after `k` samples: it has not been rebooted, and `released` is what the
samples say. -/
structure Watching (B : Button) (k : ℕ) (released : Bool) (s : ScreenState) : Prop where
  mode : s.mode = B.modeAfterDeinit
  samples : s.samples = k
  rebootedAt : s.rebootedAt = none
  released_iff : released = true ↔ ∃ i < k, B.seen i = false
  waiting : ∀ j < k, ¬PressAfterRelease B.seen j

/-- The device has been rebooted at the first press after a release. -/
def Rebooted (B : Button) (_ : Unit) (s : ScreenState) : Prop :=
  ∃ k, s.rebootedAt = some k ∧ FirstPress B.seen k

section

variable {B : Button} {k : ℕ} {released : Bool}

/-- Calls that neither sample the button nor change it. -/
theorem keeps_watching {c : screenApi.Call} (h : ∀ s, B.handler.next s c = s) :
    Prog.Triple B.handler (Watching B k released) (@Prog.perform screenApi c)
      fun _ => Watching B k released :=
  Prog.Triple.perform fun s hs => by rwa [h s]

/-- One sample. -/
theorem fwloaderButtonGet_triple :
    Prog.Triple B.handler (Watching B k released) fwloaderButtonGet fun pressed s =>
      pressed = B.seen k ∧ ∃ s₀, Watching B k released s₀ ∧ s = { s₀ with samples := k + 1 } := by
  intro s hs
  refine ⟨?_, s, hs, ?_⟩
  · show isPressed (B.pinGet s) = _
    rw [B.isPressed_pinGet hs.mode, hs.samples]
  · show { s with samples := s.samples + 1 } = _
    rw [hs.samples]

theorem exists_lt_succ_released {r : ℕ → Bool} :
    (∃ i < k + 1, r i = false) ↔ (∃ i < k, r i = false) ∨ r k = false := by
  simp only [Nat.lt_succ_iff_lt_or_eq, or_and_right, exists_or, exists_eq_left]

/-- A sample that is not the press goes on. -/
theorem Watching.next {s : ScreenState} (h : Watching B k released s)
    (hpress : ¬PressAfterRelease B.seen k) :
    Watching B (k + 1) (released || !B.seen k) { s with samples := k + 1 } where
  mode := h.mode
  samples := rfl
  rebootedAt := h.rebootedAt
  released_iff := by
    rw [exists_lt_succ_released, ← h.released_iff]
    simp
  waiting j hj := by
    rcases Nat.lt_succ_iff_lt_or_eq.mp hj with hlt | rfl
    · exact h.waiting j hlt
    · exact hpress

theorem Watching.firstPress {s : ScreenState} (h : Watching B k released s)
    (hpress : PressAfterRelease B.seen k) : FirstPress B.seen k := by
  refine ⟨hpress, fun j hj => ?_⟩
  by_contra hlt
  exact h.waiting j (Nat.not_le.mp hlt) hj

/-- A sample has been checked: it was the press, or the device goes on waiting. -/
def Checked (B : Button) (k : ℕ) : Bool × Bool → ScreenState → Prop
  | (true, _), s => FirstPress B.seen k ∧ s.samples = k + 1 ∧ s.rebootedAt = none
  | (false, released), s => Watching B (k + 1) released s

theorem checkIfButtonReleasedAndPressed_triple :
    Prog.Triple B.handler (Watching B k released) (checkIfButtonReleasedAndPressed released)
      (Checked B k) := by
  unfold checkIfButtonReleasedAndPressed
  refine Prog.Triple.ite (fun hno => ?_) fun hyes => ?_
  · -- the button has not been released before: no sample is a press after a release
    refine fwloaderButtonGet_triple.bind fun pressed => Prog.Triple.pure ?_
    rintro _ ⟨rfl, s₀, hs₀, rfl⟩
    have hpress : ¬PressAfterRelease B.seen k := by
      rintro ⟨-, hreleased⟩
      rw [hs₀.released_iff.mpr hreleased] at hno
      exact absurd hno (by simp)
    have hnext := hs₀.next hpress
    rwa [hno, Bool.false_or] at hnext
  · have hreleased : released = true := by simpa using hyes
    refine fwloaderButtonGet_triple.bind fun pressed => ?_
    refine Prog.Triple.ite (fun hpressed => ?_) fun hup => ?_
    · refine Prog.Triple.bind (Q := fun _ (s : ScreenState) => FirstPress B.seen k ∧
        s.samples = k + 1 ∧ s.rebootedAt = none) (Prog.Triple.perform ?_) fun _ _ hs => hs
      rintro _ ⟨rfl, s₀, hs₀, rfl⟩
      exact ⟨hs₀.firstPress ⟨hpressed, hs₀.released_iff.mp hreleased⟩, rfl, hs₀.rebootedAt⟩
    · refine Prog.Triple.pure ?_
      rintro _ ⟨rfl, s₀, hs₀, rfl⟩
      have hnext := hs₀.next fun h => hup h.1
      rwa [hreleased, Bool.true_or, ← hreleased] at hnext

theorem sampleButton_triple :
    Prog.Triple B.handler (Watching B k released) (sampleButton released)
      (Prog.Stays (Watching B (k + 1)) (Rebooted B)) := by
  refine (keeps_watching fun _ => rfl).bind fun _ => ?_
  refine checkIfButtonReleasedAndPressed_triple.bind fun ⟨pressed, released'⟩ => ?_
  refine Prog.Triple.ite (fun hpressed => ?_) fun hno => ?_
  · obtain rfl : pressed = true := hpressed
    refine Prog.Triple.bind (Q := fun _ => Rebooted B ()) (Prog.Triple.perform fun s hs => ?_)
      fun _ _ hs => hs
    obtain ⟨hfirst, hsamples, hnone⟩ := hs
    refine ⟨k, ?_, hfirst⟩
    show (s.rebootedAt <|> some (s.samples - 1)) = some k
    rw [hnone, hsamples]
    rfl
  · obtain rfl : pressed = false := by simpa using hno
    exact Prog.Triple.pure fun s hs => hs

/-- Sampling for `d` milliseconds. -/
theorem sampleButton_times_triple (n : ℕ) :
    Prog.Triple B.handler (Watching B k released) (Prog.times sampleButton n released)
      (Prog.Stays (Watching B (k + n)) (Rebooted B)) :=
  Prog.Triple.times (I := Watching B) (fun _ _ => sampleButton_triple) n k released

theorem blinkOnce_triple (d₁ d₂ : ℕ) :
    Prog.Triple B.handler (Watching B k released) (blinkOnce d₁ d₂ released)
      (Prog.Stays (Watching B (k + (d₁ / sleepIntervalMs + d₂ / sleepIntervalMs)))
        (Rebooted B)) := by
  refine (keeps_watching fun _ => rfl).bind fun _ => ?_
  apply (sampleButton_times_triple _).goOn
  intro released'
  refine (keeps_watching fun _ => rfl).bind fun _ => ?_
  rw [← Nat.add_assoc]
  exact sampleButton_times_triple _

theorem fwloaderLedErrBlink_triple (numBlinks : UInt32) (d₁ d₂ : ℕ) :
    Prog.Triple B.handler (Watching B k released) (fwloaderLedErrBlink released numBlinks d₁ d₂)
      (Prog.Stays
        (Watching B (k + numBlinks.toNat * (d₁ / sleepIntervalMs + d₂ / sleepIntervalMs)))
        (Rebooted B)) := by
  let waiting := fun i => Watching B (k + i * (d₁ / sleepIntervalMs + d₂ / sleepIntervalMs))
  have hround : ∀ i released, Prog.Triple B.handler (waiting i released) (blinkOnce d₁ d₂ released)
      (Prog.Stays (waiting (i + 1)) (Rebooted B)) := by
    intro i released
    simp only [waiting]
    rw [Nat.succ_mul, ← Nat.add_assoc]
    exact blinkOnce_triple d₁ d₂
  have h := Prog.Triple.times hround numBlinks.toNat 0 released
  simp only [waiting] at h
  rw [Nat.zero_mul, Nat.zero_add, Nat.add_zero] at h
  exact h

/-- The samples of one round of the endless loop. -/
def samplesPerRound (numRedBlinks : UInt32) : ℕ := 120 + numRedBlinks.toNat * 110

theorem blinkErrCode_triple (numRedBlinks : UInt32) :
    Prog.Triple B.handler (Watching B k released) (blinkErrCode numRedBlinks released)
      (Prog.Stays (Watching B (k + samplesPerRound numRedBlinks)) (Rebooted B)) := by
  apply (fwloaderLedErrBlink_triple _ _ _).goOn
  intro released'
  rw [samplesPerRound, ← Nat.add_assoc]
  exact fwloaderLedErrBlink_triple _ _ _

/-- The loop has rebooted the device, or goes on waiting after the samples of its rounds. -/
theorem loop_blinkErrCode_triple (numRedBlinks : UInt32) (n : ℕ) :
    Prog.Triple B.handler (Watching B k released) (Prog.loop (blinkErrCode numRedBlinks) n released)
      fun res s =>
        res.elim (∃ released', Watching B (k + n * samplesPerRound numRedBlinks) released' s)
          fun c => Rebooted B c s := by
  let waiting := fun i => Watching B (k + i * samplesPerRound numRedBlinks)
  have hround : ∀ i released, Prog.Triple B.handler (waiting i released)
      (blinkErrCode numRedBlinks released) (Prog.Stays (waiting (i + 1)) (Rebooted B)) := by
    intro i released
    simp only [waiting]
    rw [Nat.succ_mul, ← Nat.add_assoc]
    exact blinkErrCode_triple numRedBlinks
  have h := Prog.Triple.loop hround n 0 released
  simp only [waiting] at h
  rwa [Nat.zero_mul, Nat.zero_add, Nat.add_zero] at h

theorem fwloaderButtonCbDeinit_triple :
    Prog.Triple B.handler (· = .start) fwloaderButtonCbDeinit fun _ => Watching B 0 false := by
  rintro _ rfl
  have hstate : (fwloaderButtonCbDeinit.run B.handler .start).2 = ⟨B.modeAfterDeinit, 0, none⟩ := by
    show (if B.disconnectRc = 0 then ⟨.disconnected, 0, none⟩ else ScreenState.start) = _
    unfold Button.modeAfterDeinit
    split <;> rfl
  rw [hstate]
  exact ⟨rfl, rfl, rfl, by simp, fun j hj => absurd hj (Nat.not_lt_zero j)⟩

/-- The whole screen, from the start. -/
theorem fwloaderLedErrBlinkRedLed_triple (numRedBlinks : UInt32) (n : ℕ) :
    Prog.Triple B.handler (· = .start) (fwloaderLedErrBlinkRedLed numRedBlinks n) fun res s =>
      res.elim (∃ released', Watching B (1 + n * samplesPerRound numRedBlinks) released' s)
        fun c => Rebooted B c s := by
  refine fwloaderButtonCbDeinit_triple.bind fun _ => ?_
  refine Prog.Triple.bind (Q := fun pressed => Watching B 1 (!pressed)) ?_ fun pressed => ?_
  · -- the first sample cannot be the press
    refine fwloaderButtonGet_triple.conseq (fun s hs => hs) ?_
    rintro _ _ ⟨rfl, s₀, hs₀, rfl⟩
    exact hs₀.next fun ⟨_, i, hi, _⟩ => absurd hi (Nat.not_lt_zero i)
  · exact (keeps_watching fun _ => rfl).bind fun _ => loop_blinkErrCode_triple numRedBlinks n

end

/-! ## Leaving with the button -/

/-- In some number of rounds, the screen calls `sys_reboot`, and it does so at sample `k`. -/
def RebootsAt (numRedBlinks : UInt32) (B : Button) (k : ℕ) : Prop :=
  ∃ n, ((fwloaderLedErrBlinkRedLed numRedBlinks n).run B.handler .start).2.rebootedAt = some k

/-- After some rounds the screen is waiting, or it has rebooted at the first press after a release. -/
theorem waiting_or_rebooted (numRedBlinks : UInt32) (B : Button) (n : ℕ) :
    let s := ((fwloaderLedErrBlinkRedLed numRedBlinks n).run B.handler .start).2
    (∃ released, Watching B (1 + n * samplesPerRound numRedBlinks) released s) ∨
      ∃ k, s.rebootedAt = some k ∧ FirstPress B.seen k := by
  intro s
  have h := fwloaderLedErrBlinkRedLed_triple (B := B) numRedBlinks n _ rfl
  rcases hres : ((fwloaderLedErrBlinkRedLed numRedBlinks n).run B.handler .start).1 with _ | _
  · rw [hres] at h
    exact .inl h
  · rw [hres] at h
    exact .inr h

/-- The screen reboots at the first press that it sees after a release. -/
theorem rebootsAt_iff (numRedBlinks : UInt32) (B : Button) (k : ℕ) :
    RebootsAt numRedBlinks B k ↔ FirstPress B.seen k := by
  constructor
  · rintro ⟨n, hn⟩
    rcases waiting_or_rebooted numRedBlinks B n with ⟨released, hwatching⟩ | ⟨k', hk', hfirst⟩
    · rw [hwatching.rebootedAt] at hn
      exact absurd hn (by simp)
    · rw [hn] at hk'
      rwa [Option.some.inj hk']
  · intro hfirst
    -- `k + 1` rounds take more than `k` samples
    refine ⟨k + 1, ?_⟩
    rcases waiting_or_rebooted numRedBlinks B (k + 1) with ⟨released, hwatching⟩ | ⟨k', hk', hfirst'⟩
    · have hpos : 0 < samplesPerRound numRedBlinks := by
        unfold samplesPerRound
        omega
      have hle := Nat.le_mul_of_pos_right (k + 1) hpos
      exact absurd hfirst.1 (hwatching.waiting k (by omega))
    · rw [hk', hfirst'.unique hfirst]

/-- Whatever the button does, the screen is left by its first press after a release, as it should be,
exactly if disconnecting the pin fails or the disconnected pin happens to show such a press when the
button does. -/
theorem leavesWithButton_iff (numRedBlinks : UInt32) (B : Button) :
    (∀ k, RebootsAt numRedBlinks B k ↔ FirstPress B.pressed k) ↔
      B.disconnectRc ≠ 0 ∨
        ∀ k, FirstPress (fun i => isPressed (B.disconnected i)) k ↔ FirstPress B.pressed k := by
  by_cases hrc : B.disconnectRc = 0
  · have hseen : B.seen = fun i => isPressed (B.disconnected i) := by
      funext i
      exact if_pos hrc
    simp only [rebootsAt_iff, hseen]
    exact ⟨.inr, fun h => h.resolve_left (not_not_intro hrc)⟩
  · have hseen : B.seen = B.pressed := by
      funext i
      exact if_neg hrc
    simp only [rebootsAt_iff, hseen]
    exact ⟨fun _ => .inl hrc, fun _ _ => trivial⟩

/-- A button that has been disconnected makes no difference. -/
theorem rebootsAt_congr_of_disconnected {B B' : Button} (hrc : B.disconnectRc = 0)
    (hrc' : B'.disconnectRc = 0) (hpin : B.disconnected = B'.disconnected) (numRedBlinks : UInt32)
    (k : ℕ) : RebootsAt numRedBlinks B k ↔ RebootsAt numRedBlinks B' k := by
  have hseen : B.seen = B'.seen := by
    funext i
    rw [Button.seen, Button.seen, if_pos hrc, if_pos hrc', hpin]
  rw [rebootsAt_iff, rebootsAt_iff, hseen]

/-- A button that is pressed right after the first sample, on a pin that is low once disconnected:
as the button is active-low, it then seems to be pressed all the time. -/
def pressedAtOnce : Button := ⟨(0 < ·), fun _ => 1, 0, 0⟩

/-- That button does not reboot the device. -/
theorem pressedAtOnce_ignored :
    FirstPress pressedAtOnce.pressed 1 ∧ ∀ k, ¬RebootsAt 3 pressedAtOnce k := by
  refine ⟨⟨⟨by decide, 0, by decide, by decide⟩, ?_⟩, fun k h => ?_⟩
  · rintro j ⟨-, i, hi, -⟩
    omega
  · obtain ⟨-, i, -, hreleased⟩ := ((rebootsAt_iff 3 pressedAtOnce k).mp h).1
    have hseen : pressedAtOnce.seen i = true := by
      show isPressed 1 = true
      decide
    exact absurd hreleased (by simp [hseen])

end FwLoader.Halt
