import FwLoader.Foundations.Scripts
import FwLoader.Halt.ErrorScreen
import Mathlib.Algebra.GroupWithZero.Nat

/-!
# What the fatal-error screen shows

Whatever the drivers answer, the LEDs go through the same script: green is switched off, and then
red blinks twice and as often as the error code says, with pauses that tell the two apart. Only a
reboot interrupts the script, right after one of the intervals at which the button is sampled.
-/

namespace FwLoader.Halt

open Foundations

/-- What can be seen of the screen: the LEDs, how long they stay as they are, and the reboot. -/
def visible (e : Event screenApi) : Option ScreenCall :=
  match e.call with
  | .kMsleep ms => some (.kMsleep ms)
  | .ledRedOn => some .ledRedOn
  | .ledRedOff => some .ledRedOff
  | .ledGreenOff => some .ledGreenOff
  | .sysReboot => some .sysReboot
  | _ => none

/-! ## The script -/

/-- The LEDs stay as they are for some milliseconds, in intervals. -/
def hold (ms : ℕ) : List ScreenCall := .replicate (ms / sleepIntervalMs) (.kMsleep sleepIntervalMs)

/-- Red is on for `betweenMs` and off for `afterMs`. -/
def blink (betweenMs afterMs : ℕ) : List ScreenCall :=
  .ledRedOn :: (hold betweenMs ++ .ledRedOff :: hold afterMs)

/-- Two short blinks and then the error code. -/
def errCodeScript (numRedBlinks : UInt32) : List ScreenCall :=
  (List.replicate numBlinksPrefix.toNat (blink delayBetweenBlinksMs delayAfterPrefixMs)).flatten ++
    (List.replicate numRedBlinks.toNat (blink delayBetweenBlinksMs delayAfterErrCodeMs)).flatten

/-- What follows the interval after which the press is seen. -/
def rebootScript : List ScreenCall := [.kMsleep delayBeforeRebootMs, .sysReboot]

/-- How long a call takes. -/
def ScreenCall.ms : ScreenCall → ℕ
  | .kMsleep ms => ms
  | _ => 0

theorem sum_ms_flatten_replicate (n : ℕ) (w : List ScreenCall) :
    ((List.replicate n w).flatten.map ScreenCall.ms).sum = n * (w.map ScreenCall.ms).sum := by
  induction n with
  | zero => rw [Nat.zero_mul]; rfl
  | succ n ih =>
    rw [List.replicate_succ, List.flatten_cons, List.map_append, List.sum_append, ih, Nat.succ_mul,
      Nat.add_comm]

theorem sum_ms_blink (betweenMs afterMs : ℕ) :
    ((blink betweenMs afterMs).map ScreenCall.ms).sum =
      betweenMs / sleepIntervalMs * sleepIntervalMs +
        afterMs / sleepIntervalMs * sleepIntervalMs := by
  simp [blink, hold, ScreenCall.ms]

/-- A round takes 1.2 s and 1.1 s for each blink of the error code. -/
theorem sum_ms_errCodeScript (numRedBlinks : UInt32) :
    ((errCodeScript numRedBlinks).map ScreenCall.ms).sum = 1200 + numRedBlinks.toNat * 1100 := by
  rw [errCodeScript, List.map_append, List.sum_append, sum_ms_flatten_replicate,
    sum_ms_flatten_replicate, sum_ms_blink, sum_ms_blink]
  rfl

/-- The screens of two error codes differ. -/
theorem errCodeScript_injective : Function.Injective errCodeScript := by
  intro m n h
  have hsum := congrArg (fun w => (w.map ScreenCall.ms).sum) h
  simp only [sum_ms_errCodeScript] at hsum
  exact UInt32.toNat_inj.mp (by omega)

/-! ## The program acts it out -/

/-- Until a reboot the program shows `w`. -/
abbrev Shows (w : List ScreenCall) (p : Prog screenApi (Bool ⊕ Unit)) : Prop :=
  Prog.ActsUntil visible (.kMsleep sleepIntervalMs) rebootScript w p

/-- The calls of the button are not seen. -/
theorem acts_of_unseen {c : ScreenCall} (h : ∀ r, visible ⟨c, r⟩ = none) :
    Prog.Acts visible [] (@Prog.perform screenApi c) := Prog.Acts.perform_unseen h

/-- The calls of the LEDs and of the kernel are seen. -/
theorem acts_of_seen {c : ScreenCall} (h : ∀ r, visible ⟨c, r⟩ = some c) :
    Prog.Acts visible [c] (@Prog.perform screenApi c) := Prog.Acts.perform_seen h

theorem fwloaderButtonGet_acts : Prog.Acts visible [] fwloaderButtonGet :=
  (acts_of_unseen fun _ => rfl).bind fun _ => Prog.Acts.pure _

/-- The press is seen after an interval. -/
theorem sampleButton_shows (isButtonReleased : Bool) :
    Shows [.kMsleep sleepIntervalMs] (sampleButton isButtonReleased) := by
  intro σ H s
  cases isButtonReleased with
  | false => rfl
  | true =>
    have hinterval (s : σ) : (kMsleep sleepIntervalMs).seen visible H s = [.kMsleep 10] := rfl
    have hdelay (s : σ) : (kMsleep delayBeforeRebootMs).seen visible H s = [.kMsleep 100] := rfl
    have hreboot (s : σ) : sysReboot.seen visible H s = [.sysReboot] := rfl
    unfold sampleButton checkIfButtonReleasedAndPressed
    cases hpressed : (fwloaderButtonGet.run H ((kMsleep sleepIntervalMs).run H s).2).1 with
    | false =>
      simp only [Prog.run_bind, Prog.seen_bind, Prog.run_ite, Prog.seen_ite, hpressed, hinterval,
        fwloaderButtonGet_acts σ H _]
      rfl
    | true =>
      simp only [Prog.run_bind, Prog.seen_bind, Prog.run_ite, Prog.seen_ite, hpressed, hinterval,
        hdelay, hreboot, fwloaderButtonGet_acts σ H _]
      exact ⟨[], List.prefix_rfl, rfl⟩

/-- The button is sampled for as long as the LEDs stay as they are. -/
theorem sampleButton_times_shows (ms : ℕ) (isButtonReleased : Bool) :
    Shows (hold ms) (Prog.times sampleButton (ms / sleepIntervalMs) isButtonReleased) := by
  have h := Prog.ActsUntil.times sampleButton_shows (ms / sleepIntervalMs) isButtonReleased
  rwa [List.flatten_replicate_singleton] at h

theorem blinkOnce_shows (betweenMs afterMs : ℕ) (isButtonReleased : Bool) :
    Shows (blink betweenMs afterMs) (blinkOnce betweenMs afterMs isButtonReleased) := by
  show Shows ([.ledRedOn] ++ (hold betweenMs ++ ([.ledRedOff] ++ hold afterMs))) _
  refine Prog.ActsUntil.bind (acts_of_seen fun _ => rfl) fun _ => ?_
  refine Prog.ActsUntil.goOn (sampleButton_times_shows betweenMs isButtonReleased) fun _ => ?_
  refine Prog.ActsUntil.bind (acts_of_seen fun _ => rfl) fun _ => ?_
  exact sampleButton_times_shows afterMs _

theorem blinkErrCode_shows (numRedBlinks : UInt32) (isButtonReleased : Bool) :
    Shows (errCodeScript numRedBlinks) (blinkErrCode numRedBlinks isButtonReleased) := by
  refine Prog.ActsUntil.goOn ?_ fun _ => ?_
  · exact Prog.ActsUntil.times (blinkOnce_shows _ _) _ isButtonReleased
  · exact Prog.ActsUntil.times (blinkOnce_shows _ _) _ _

theorem fwloaderButtonCbDeinit_acts : Prog.Acts visible [] fwloaderButtonCbDeinit := by
  refine Prog.Acts.bind (acts_of_unseen fun _ => rfl) fun ready => ?_
  refine Prog.Acts.ite (Prog.Acts.pure ()) ?_
  refine Prog.Acts.bind ((acts_of_unseen fun _ => rfl).bind fun _ => Prog.Acts.pure ()) fun _ => ?_
  refine Prog.Acts.bind (acts_of_unseen fun _ => rfl) fun _ => ?_
  exact (acts_of_unseen fun _ => rfl).bind fun _ => Prog.Acts.pure ()

/-- In every environment, the screen switches green off and goes through the script of its error
code over and over. If it reboots the device, it does so after an interval of the script, and
nothing follows. -/
theorem fwloaderLedErrBlinkRedLed_shows {σ : Type} (H : Handler screenApi σ) (s : σ)
    (numRedBlinks : UInt32) (n : ℕ) :
    let p := fwloaderLedErrBlinkRedLed numRedBlinks n
    Played (.kMsleep sleepIntervalMs) rebootScript
      (.ledGreenOff :: (List.replicate n (errCodeScript numRedBlinks)).flatten)
      (p.run H s).1.isSome (p.seen visible H s) := by
  intro p
  simp only [p, fwloaderLedErrBlinkRedLed, Prog.run_bind, Prog.seen_bind,
    fwloaderButtonCbDeinit_acts σ H _, fwloaderButtonGet_acts σ H _, List.nil_append]
  exact (Prog.ActsUntil.loop (blinkErrCode_shows numRedBlinks) H _ n _).append_left [.ledGreenOff]

end FwLoader.Halt
