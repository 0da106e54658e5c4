import FwLoader.Threads.Light

/-!
# The LEDs after a press

After a press the handlers of the button keep the other writers off by the flag and the mutex, but
not main's initialisation, which takes no notice of them. In the runs in which main does not darken
an LED that is lit after a press, and no LED is switched on for a press while its pin is between the
two modes, the LEDs are as the last handler has left them.
-/

namespace FwLoader.Threads

open Foundations System

/-- Both LEDs give light, or neither does. -/
def LedsAre (d : Device) (isOn : Bool) : Prop := ∀ c, (d.leds c).isOn = isOn

instance (d : Device) (isOn : Bool) : Decidable (LedsAre d isOn) :=
  decidable_of_iff ((d.leds .red).isOn = isOn ∧ (d.leds .green).isOn = isOn)
    ⟨fun h c => by cases c; exacts [h.1, h.2], fun h => ⟨h _, h _⟩⟩

/-- The button handler that has returned last. -/
def noteHandler (last : Option Work) (d : Device) (e : Event) : Option Work :=
  if e = .workq then
    match d.workq with
    | .pressedUnlock => some .pressed
    | .offReschedule .released => some .released
    | .offReschedule .timeout => some .timeout
    | _ => last
  else last

/-- The LEDs are on after `pressed`, and off after `released` and `timeout`. -/
def ShowsLast (last : Option Work) (d : Device) : Prop :=
  last = some .pressed ∧ LedsAre d true ∨
    (last = some .released ∨ last = some .timeout) ∧ LedsAre d false

instance (last : Option Work) (d : Device) : Decidable (ShowsLast last d) :=
  inferInstanceAs (Decidable (_ ∨ _))

/-- The LED that main switches off or disconnects here, without the mutex. -/
def MainPc.darkens : MainPc → Option Color
  | .redSetFalse => some .red
  | .gpioPinSet c | .gpioDisconnect c | .pwmSet c => some c
  | _ => none

/-- The LED that the handler of a press switches on here. -/
def WorkqPc.lights : WorkqPc → Option Color
  | .pressedGreenOn => some .green
  | .pressedRedOn => some .red
  | _ => none

/-- The step does not disturb the button handlers: main darkens no LED that is lit after a press,
and no LED is switched on for a press after its GPIO has been disconnected and before the PWM mode
is on. -/
def LeavesButton (d : Device) (e : Event) : Prop :=
  (e.thread = .main → ∀ c ∈ d.main.darkens, d.gFlagButtonPressed = true → (d.leds c).isOn = false) ∧
    (e = .workq → ∀ c ∈ d.workq.lights,
      d.gFwloaderLedInPwmMode = true ∨ (d.leds c).configured = true)

instance (d : Device) (e : Event) : Decidable (LeavesButton d e) :=
  inferInstanceAs (Decidable (_ ∧ _))

/-- How the LEDs are after a press, outside and within the handlers. -/
def ButtonShown (last : Option Work) (d : Device) : Prop :=
  match d.workq with
  | .idle | .advertise | .pressedReschedule | .pressedLock | .pressedSet | .releasedCancel
  | .offLock _ => ShowsLast last d
  | .pressedGreenOn | .offGreen _ | .reboot | .rebooting => True
  | .pressedRedOn => (d.leds .green).isOn = true
  | .pressedUnlock => LedsAre d true
  | .offRed _ => (d.leds .green).isOn = false
  | .offUnlock _ | .offReschedule _ => LedsAre d false

section

variable {last : Option Work} {d d' : Device} {e : Event} {k : Call}

/-- How the LEDs are depends on nothing else. -/
theorem ButtonShown.congr (h : ButtonShown last d) (hworkq : d'.workq = d.workq)
    (hleds : ∀ c, (d'.leds c).isOn = (d.leds c).isOn) : ButtonShown last d' := by
  unfold ButtonShown ShowsLast LedsAre at h ⊢
  simp only [hworkq, hleds]
  exact h

theorem ButtonShown.between (h : ButtonShown last d) (hbetween : BetweenHandlers d) :
    ShowsLast last d := by
  unfold ButtonShown at h
  rcases hbetween with hpc | hpc
  · rwa [hpc] at h
  · rwa [hpc] at h

/-! ## The other threads -/

/-- Once the interrupt is on, a call of main darkens an LED or leaves
it alone, but for its red-on. -/
theorem MainPc.leds_of_call (hk : d.main.call = some k) (hint : MainPc.Done .buttonCbInit d.main)
    (hpc : d.main ≠ .redOn) (c : Color) :
    d.main.darkens = some c ∧ k ≠ .ledSet c true ∨
      (d.effect .main k).leds c = d.leds c := by
  cases hmain : d.main with
  | rebooting =>
    rw [hmain] at hk
    cases hk
  | redOn => exact absurd hmain hpc
  | ledInitGpio c' =>
    rw [hmain] at hint
    cases c' <;> exact absurd hint (by decide)
  | redSetTrue =>
    rw [hmain] at hint
    exact absurd hint (by decide)
  | redSetFalse =>
    rw [hmain] at hk
    obtain rfl := Option.some.inj hk
    by_cases hc : c = .red
    · exact .inl ⟨congrArg some hc.symm, by simp⟩
    · exact .inr (leds_ledSet_of_ne hc)
  | gpioPinSet c' | gpioDisconnect c' | pwmSet c' =>
    rw [hmain] at hk
    obtain rfl := Option.some.inj hk
    by_cases hc : c = c'
    · exact .inl ⟨congrArg some hc.symm, by simp⟩
    · rw [effect_leds, Call.onLed, if_neg hc]
      exact .inr rfl
  | _ =>
    rw [hmain] at hk
    obtain rfl := Option.some.inj hk
    exact .inr rfl

/-- Main leaves the light as it is after a press. -/
theorem isOn_mainStep {expired : Bool} (hlocal : ∀ t, Local t d)
    (hpressed : d.gFlagButtonPressed = true)
    (hleaves : LeavesButton d (.main expired)) (hstep : d.mainStep expired = some d') (c : Color) :
    (d'.leds c).isOn = (d.leds c).isOn := by
  have hmain : MainLocal d := hlocal .main
  have hworkq : WorkqLocal d := hlocal .workq
  obtain ⟨k, hk, hcan, rfl⟩ := mainStep_eq_some hstep
  -- a press needs the interrupt, and main does not come to its red-on after a press
  have hint : MainPc.Done .buttonCbInit d.main := by
    rw [← hmain.buttonInt]
    by_contra hoff
    exact nomatch (hworkq.quiet (by simpa using hoff)).2.2.symm.trans hpressed
  have hpc : d.main ≠ .redOn := fun hpc => nomatch (hmain.unpressed hpc).symm.trans hpressed
  rcases MainPc.leds_of_call hk hint hpc c with ⟨hdark, hne⟩ | hkeep
  · have hoff := hleaves.1 rfl c hdark hpressed
    exact (isOn_effect_of_off hoff hne).trans hoff.symm
  · exact congrArg Led.isOn hkeep

/-- The Bluetooth thread leaves the LEDs as they are after a press. -/
theorem leds_btStep (hbt : BtLocal d) (hpressed : d.gFlagButtonPressed = true)
    (hstep : d.btStep = some d') : d'.leds = d.leds := by
  obtain ⟨k, hk, hcan, rfl⟩ := btStep_eq_some hstep
  show (d.effect .bt k).leds = d.leds
  cases hpc : d.bt with
  | idle => exact nomatch hpc ▸ hk
  | ledOff b => exact nomatch (hbt.unpressed b (.inl hpc)).symm.trans hpressed
  | ledOn b => exact nomatch (hbt.unpressed b (.inr hpc)).symm.trans hpressed
  | _ =>
    rw [hpc] at hk
    obtain rfl := Option.some.inj hk
    rfl

/-! ## The handlers -/

/-- A handler that is beginning has not yet changed the LEDs. -/
theorem buttonShown_handler {w : Work} {work : WorkQueue Work} (h : ShowsLast last d) :
    ButtonShown last { d with work := work, workq := w.handler } := by
  cases w with
  | reboot => exact trivial
  | _ => exact h

theorem buttonShown_workqStep (hlocal : ∀ t, Local t d)
    (h : d.gFlagButtonPressed = true → ButtonShown last d) (hleaves : LeavesButton d .workq)
    (hpressed : d'.gFlagButtonPressed = true) (hstep : d.workqStep = some d') :
    ButtonShown (noteHandler last d .workq) d' := by
  have hmain : MainLocal d := hlocal .main
  obtain ⟨w, work, hidle, htake, rfl⟩ | ⟨k, hk, hcan, rfl⟩ := workqStep_cases hstep
  · have hshown := h hpressed
    rw [ButtonShown, hidle] at hshown
    rw [noteHandler, if_pos rfl, hidle]
    exact buttonShown_handler hshown
  · have hpressed' : (d.effect .workq k).gFlagButtonPressed = true := hpressed
    rw [effect_pressed, Bool.or_eq_true, decide_eq_true_iff] at hpressed'
    have hgreen : (d.effect .workq (.ledSet .red true)).leds .green = d.leds .green :=
      leds_ledSet_of_ne nofun
    rw [noteHandler, if_pos rfl]
    unfold ButtonShown at h
    cases hpc : d.workq with
    | idle | rebooting => exact nomatch hpc ▸ hk
    -- from here on the handler writes the LEDs
    | pressedSet | offLock w | reboot => exact trivial
    | pressedGreenOn =>
      rw [hpc] at hk
      obtain rfl := Option.some.inj hk
      exact isOn_ledSet_true .workq (hleaves.2 rfl .green (by rw [hpc]; rfl))
    | pressedRedOn =>
      rw [hpc] at hk h
      obtain rfl := Option.some.inj hk
      have hlit : (d.leds .green).isOn = true := h (hpressed'.resolve_left nofun)
      have hred := isOn_ledSet_true .workq (hleaves.2 rfl .red (by rw [hpc]; rfl))
      intro c
      cases c with
      | red => exact hred
      | green => exact (congrArg Led.isOn hgreen).trans hlit
    -- the handler returns and is noted
    | pressedUnlock =>
      rw [hpc] at hk h
      obtain rfl := Option.some.inj hk
      exact .inl ⟨rfl, h (hpressed'.resolve_left nofun)⟩
    | offGreen w =>
      rw [hpc] at hk
      obtain rfl := Option.some.inj hk
      exact isOn_ledSet_false .workq hmain
    | offRed w =>
      rw [hpc] at hk h
      obtain rfl := Option.some.inj hk
      have hdark : (d.leds .green).isOn = false := h (hpressed'.resolve_left nofun)
      intro c
      cases c with
      | red => exact isOn_ledSet_false .workq hmain
      | green => exact isOn_effect_of_off (t := .workq) (k := .ledSet .red false) hdark nofun
    | offReschedule w =>
      rw [hpc] at hk h
      obtain rfl := Option.some.inj hk
      have hdark : LedsAre d false := h (hpressed'.resolve_left nofun)
      cases w with
      | released => exact .inr ⟨.inl rfl, hdark⟩
      | timeout => exact .inr ⟨.inr rfl, hdark⟩
    | _ =>
      rw [hpc] at hk h
      obtain rfl := Option.some.inj hk
      exact h (hpressed'.resolve_left nofun)

/-! ## Every run -/

/-- The device, watched for the handler that has returned last. -/
def watched : System (Device × Option Work) Event := device.addGhost none noteHandler

theorem buttonShown_of_reach {p : Device × Option Work}
    (h : watched.Reach (fun p e => LeavesButton p.1 e) p)
    (hpressed : p.1.gFlagButtonPressed = true) :
    ButtonShown p.2 p.1 := by
  refine h.invariant_of_reach (I := fun p => p.1.gFlagButtonPressed = true → ButtonShown p.2 p.1)
    nofun (fun p e p' hreach hshown hleaves hstep hpressed => ?_) hpressed
  obtain ⟨d, last⟩ := p
  obtain ⟨d', last'⟩ := p'
  obtain ⟨hstep, rfl⟩ := addGhost_step_eq_some.mp hstep
  have hlocal := local_of_reach hreach.of_addGhost
  have hframe := (device_step hlocal hstep).2
  by_cases he : e = .workq
  · subst he
    exact buttonShown_workqStep hlocal hshown hleaves hpressed hstep
  · -- the flag has been set before, and the handlers stand still
    have ht : e.thread ≠ .workq := by
      intro ht
      cases e <;> first | exact absurd rfl he | exact nomatch ht
    have hpressed' : d.gFlagButtonPressed = true := by
      rw [← hframe.pressed.resolve_right fun hset => ht hset.1]
      exact hpressed
    have hlast : noteHandler last d e = last := if_neg he
    show ButtonShown (noteHandler last d e) d'
    rw [hlast]
    refine (hshown hpressed').congr (hframe.workq ht) fun c => ?_
    cases e with
    | main expired => exact isOn_mainStep hlocal hpressed' hleaves hstep c
    | bt => rw [leds_btStep (hlocal .bt) hpressed' hstep]
    | workq => exact absurd rfl he
    | connected err =>
      obtain ⟨-, hnext⟩ := Option.ite_none_right_eq_some.mp hstep
      obtain rfl := Option.some.inj hnext
      split <;> rfl
    | disconnected reason =>
      obtain ⟨-, hnext⟩ := Option.ite_none_right_eq_some.mp hstep
      obtain rfl := Option.some.inj hnext
      rfl
    | btReady err | edge isPressed | expire w =>
      obtain ⟨work, rfl⟩ := device_step_isr rfl hstep
      rfl

/-- If no step of a run disturbs the button handlers, then in each state that is reached and in
which the flag of the button is set and no button handler is running, both LEDs are on if the last
handler was `pressed`, and both are off if it was `released` or `timeout`. -/
theorem shows_last_handler {p : Device × Option Work}
    (h : watched.Reach (fun p e => LeavesButton p.1 e) p) (hpressed : p.1.gFlagButtonPressed = true)
    (hbetween : BetweenHandlers p.1) : ShowsLast p.2 p.1 :=
  (buttonShown_of_reach h hpressed).between hbetween

/-- Whatever handlers have run, the two LEDs agree after a press. -/
theorem leds_agree_of_reach (h : device.Reach LeavesButton d) (hpressed : d.gFlagButtonPressed = true)
    (hbetween : BetweenHandlers d) : ∃ isOn, LedsAre d isOn := by
  obtain ⟨es, hrun⟩ := h
  have hwatched : ∃ last, watched.Run (fun p e => LeavesButton p.1 e) watched.init es (d, last) :=
    hrun.exists_addGhost none
  obtain ⟨last, hwatched⟩ := hwatched
  have hshown : ButtonShown last d := buttonShown_of_reach ⟨es, hwatched⟩ hpressed
  rcases hshown.between hbetween with ⟨-, hon⟩ | ⟨-, hoff⟩
  · exact ⟨true, hon⟩
  · exact ⟨false, hoff⟩

end

/-- A press, and its handler. -/
def press : List Event := .edge true :: .replicate 7 .workq

/-- A press after start-up. -/
theorem shows_last_handler_sample :
    ∃ p, watched.Reach (fun p e => LeavesButton p.1 e) p ∧ p.2 = some .pressed ∧
      ShowsLast p.2 p.1 := by
  obtain ⟨p, hreach, hpressed, hbetween, hlast⟩ :=
    exists_reach_of_exec (M := watched) (C := fun p e => LeavesButton p.1 e)
      (P := fun p => p.1.gFlagButtonPressed = true ∧ BetweenHandlers p.1 ∧ p.2 = some .pressed)
      (.replicate 19 (.main false) ++ press) (by decide)
  exact ⟨p, hreach, hlast, shows_last_handler hreach hpressed hbetween⟩

/-- Early init switches red off after a press that is handled as soon as the interrupt is on. -/
theorem not_shows_last_handler :
    ∃ p, watched.Reach Any p ∧ p.1.gFlagButtonPressed = true ∧ BetweenHandlers p.1 ∧
      p.1.gFwloaderLedMutex = none ∧ ¬ShowsLast p.2 p.1 :=
  exists_reach_of_exec (.replicate 4 (.main false) ++ press ++ [.main false]) (by decide)

end FwLoader.Threads
