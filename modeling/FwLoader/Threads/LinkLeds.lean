import FwLoader.Threads.Light

/-!
# The LEDs and the link

The connected flag is set outside of the mutex, and main switches red on without a look at it. Still
the LEDs show the link whenever no callback has to write them yet, in all runs in which two things
do not happen: main comes too late with its red-on, or the LEDs are switched off for a release
although no press was handled before.
-/

namespace FwLoader.Threads

open Foundations System

/-- The LEDs show that a client is connected, or that none is. -/
def Shows (d : Device) (isConnected : Bool) : Prop :=
  (d.leds .red).isOn = !isConnected ∧ (d.leds .green).isOn = isConnected

instance (d : Device) : DecidablePred (Shows d) := fun _ => inferInstanceAs (Decidable (_ ∧ _))

/-- There is no callback that has still to write the LEDs. -/
def BtPc.Settled (pc : BtPc) : Prop := pc = .idle ∨ pc = .submitAdvertise

instance : DecidablePred BtPc.Settled := fun _ => inferInstanceAs (Decidable (_ ∨ _))

/-- The step does not disturb the LEDs: main does not switch red on when a client is connected and
no callback has still to write the LEDs, and the LEDs are not switched off for a release, before the
button is handled as pressed, when main is past its red-on and no
callback has still to write them. -/
def LeavesLink (d : Device) (e : Event) : Prop :=
  (e.thread = .main → d.main = .redOn → ¬(d.gBtIsConnected = true ∧ d.bt.Settled)) ∧
    (e = .workq → d.workq = .offGreen .released ∨ d.workq = .offRed .released →
      d.gFlagButtonPressed = false → ¬(MainPc.Done .redOn d.main ∧ d.bt.Settled))

instance (d : Device) (e : Event) : Decidable (LeavesLink d e) :=
  inferInstanceAs (Decidable (_ ∧ _))

/-- What the LEDs show as long as the button is not pressed. -/
structure LinkShown (d : Device) : Prop where
  green : d.bt.Settled → d.gBtIsConnected = false → (d.leds .green).isOn = false
  shown : MainPc.Done .redOn d.main → d.bt.Settled → Shows d d.gBtIsConnected
  ledOn : ∀ b, d.bt = .ledOn b → (d.leds (if b then .red else .green)).isOn = false
  ledUnlock : ∀ b, d.bt = .ledUnlock b → Shows d b

section

variable {d d' : Device} {e : Event} {k : Call}

/-- What the LEDs show depends on nothing else. -/
theorem LinkShown.congr (h : LinkShown d) (hleds : d'.leds = d.leds) (hbt : d'.bt = d.bt)
    (hconnected : d'.gBtIsConnected = d.gBtIsConnected)
    (hmain : MainPc.Done .redOn d'.main → MainPc.Done .redOn d.main) : LinkShown d' := by
  refine ⟨fun hsettled hnot => ?_, fun hdone hsettled => ?_, fun b hb => ?_, fun b hb => ?_⟩
  · rw [hleds]
    exact h.green (hbt ▸ hsettled) (hconnected ▸ hnot)
  · unfold Shows
    rw [hleds, hconnected]
    exact h.shown (hmain hdone) (hbt ▸ hsettled)
  · rw [hleds]
    exact h.ledOn b (hbt ▸ hb)
  · unfold Shows
    rw [hleds]
    exact h.ledUnlock b (hbt ▸ hb)

/-- A callback that has still to write the LEDs only has to keep to its own order. -/
theorem linkShown_of_busy (hbusy : ¬d.bt.Settled)
    (hledOn : ∀ b, d.bt = .ledOn b → (d.leds (if b then .red else .green)).isOn = false)
    (hledUnlock : ∀ b, d.bt = .ledUnlock b → Shows d b) : LinkShown d :=
  ⟨fun hsettled => absurd hsettled hbusy, fun _ hsettled => absurd hsettled hbusy, hledOn, hledUnlock⟩

/-! ## Main -/

/-- With the button not pressed, main does not come past its red-on without making it. -/
theorem MainPc.done_redOn_of_next {pc : MainPc} (expired : Bool)
    (hunpressed : d.gFlagButtonPressed = false) (hpc : pc ≠ .redOn)
    (h : MainPc.Done .redOn (pc.next d expired)) : MainPc.Done .redOn pc := by
  cases pc with
  | redOn => exact absurd rfl hpc
  | ledInitGpio c | gpioPinSet c | gpioDisconnect c | pwmSet c =>
    cases c <;> exact absurd h (by rw [next]; decide)
  | isPressed =>
    rw [next, if_neg (by simp [hunpressed])] at h
    exact absurd h (by decide)
  | ledUnlock | testReboot | testPressed | watchdogFeed | testTimeout | rebooting => decide
  | _ => exact absurd h (by rw [next]; decide)

theorem linkShown_mainStep {expired : Bool} (hlocal : ∀ t, Local t d) (h : LinkShown d)
    (hunpressed : d.gFlagButtonPressed = false) (hleaves : LeavesLink d (.main expired))
    (hstep : d.mainStep expired = some d') : LinkShown d' := by
  have hmain : MainLocal d := hlocal .main
  have hbt : BtLocal d := hlocal .bt
  have hframe := frame_mainStep hmain hstep
  obtain ⟨k, hk, hcan, rfl⟩ := mainStep_eq_some hstep
  by_cases hpc : d.main = .redOn
  · -- red is switched on while no client is connected or a callback is still to come
    have hmode : d.gFwloaderLedInPwmMode = true := hmain.mode.mpr (by rw [hpc]; decide)
    have howner : d.gFwloaderLedMutex = some .main := hmain.mutex.mpr (.inr (.inl hpc))
    have hwaits : ¬d.bt.HasMutex := hbt.not_hasMutex howner (by simp)
    have hk' := hk
    rw [hpc] at hk'
    obtain rfl := Option.some.inj hk'
    have hred := isOn_ledSet_true (c := .red) .main (.inl hmode)
    have hgreen : ((d.effect .main (.ledSet .red true)).leds .green) = d.leds .green :=
      leds_ledSet_of_ne nofun
    refine ⟨fun hsettled hnot => ?_, fun _ hsettled => ?_, fun b hb => ?_, fun b hb => ?_⟩
    · exact (congrArg Led.isOn hgreen).trans (h.green hsettled hnot)
    · have hnot : d.gBtIsConnected = false := by
        by_contra hconnected
        exact hleaves.1 rfl hpc ⟨by simpa using hconnected, hsettled⟩
      show Shows _ d.gBtIsConnected
      rw [hnot]
      exact ⟨hred, (congrArg Led.isOn hgreen).trans (h.green hsettled hnot)⟩
    · have hb' : d.bt = .ledOn b := hb
      exact absurd (by rw [hb']; trivial) hwaits
    · have hb' : d.bt = .ledUnlock b := hb
      exact absurd (by rw [hb']; trivial) hwaits
  · have hpast := MainPc.done_redOn_of_next expired hunpressed hpc
    by_cases hdone : MainPc.Done .startSmpBluetoothAdverts d.main
    · exact h.congr (leds_main_of_done hk hdone hpc) (hframe.bt nofun) (hframe.connected nofun) hpast
    · -- no callback has been called yet
      have hidle : d.bt = .idle := by
        by_contra hrunning
        exact hdone (hmain.btEnabled.mp (hbt.enabled hrunning))
      have hidle' := (hframe.bt nofun).trans hidle
      refine ⟨fun _ hnot => ?_, fun hpast' => ?_, fun b hb => ?_, fun b hb => ?_⟩
      · refine isOn_effect_of_off (h.green (.inl hidle) ?_) (MainPc.call_ne_greenOn hk)
        rw [← hframe.connected nofun, hnot]
      · exact absurd (Nat.lt_trans (by decide) (hpast hpast')) hdone
      · exact nomatch hidle'.symm.trans hb
      · exact nomatch hidle'.symm.trans hb

/-! ## The Bluetooth thread -/

theorem linkShown_btStep (hlocal : ∀ t, Local t d) (h : LinkShown d)
    (hunpressed : d.gFlagButtonPressed = false) (hstep : d.btStep = some d') : LinkShown d' := by
  have hmain : MainLocal d := hlocal .main
  have hbt : BtLocal d := hlocal .bt
  obtain ⟨k, hk, hcan, rfl⟩ := btStep_eq_some hstep
  cases hpc : d.bt with
  | idle =>
    rw [hpc] at hk
    cases hk
  -- up to its unlock the callback has still to write the LEDs
  | setFlag b | ledLock b =>
    exact linkShown_of_busy (by simp [BtPc.next, BtPc.Settled]) (by simp [BtPc.next])
      (by simp [BtPc.next])
  | isPressed b =>
    have hnext : (BtPc.isPressed b).next d = .ledOff b := if_neg (by simp [hunpressed])
    rw [hnext]
    exact linkShown_of_busy (by simp [BtPc.Settled]) (by simp) (by simp)
  | ledOff b =>
    rw [hpc] at hk
    obtain rfl := Option.some.inj hk
    refine linkShown_of_busy (by simp [BtPc.next, BtPc.Settled]) (fun b' hb => ?_)
      (by simp [BtPc.next])
    obtain rfl := BtPc.ledOn.inj hb
    exact isOn_ledSet_false .bt hmain
  | ledOn b =>
    rw [hpc] at hk
    obtain rfl := Option.some.inj hk
    refine linkShown_of_busy (by simp [BtPc.next, BtPc.Settled]) (by simp [BtPc.next])
      fun b' hb => ?_
    obtain rfl := BtPc.ledUnlock.inj hb
    have hmode : d.gFwloaderLedInPwmMode = true := by
      have henabled := hmain.btEnabled.mp (hbt.enabled (by simp [hpc]))
      exact hmain.mode.mpr (Nat.lt_trans (by decide) henabled)
    have hon := isOn_ledSet_true (c := if b then .green else .red) .bt (.inl hmode)
    have hother : (d.effect .bt (.ledSet (if b then .green else .red) true)).leds
        (if b then .red else .green) = d.leds (if b then .red else .green) :=
      leds_ledSet_of_ne (by cases b <;> simp)
    have hoff := (congrArg Led.isOn hother).trans (h.ledOn b hpc)
    cases b with
    | true => exact ⟨hoff, hon⟩
    | false => exact ⟨hon, hoff⟩
  -- the callback has written the LEDs for what it has set the flag to
  | ledUnlock b =>
    rw [hpc] at hk
    obtain rfl := Option.some.inj hk
    have hflag : d.gBtIsConnected = b := hbt.flag b (by rw [hpc]; rfl)
    have hshown : Shows d d.gBtIsConnected := by
      rw [hflag]
      exact h.ledUnlock b hpc
    have hnext :
        (BtPc.ledUnlock b).next d = .idle ∨ (BtPc.ledUnlock b).next d = .submitAdvertise := by
      cases b with
      | true => exact .inl rfl
      | false => exact .inr rfl
    refine ⟨fun _ hnot => hshown.2.trans hnot, fun _ _ => hshown, fun b' hb => ?_, fun b' hb => ?_⟩
    · rcases hnext with hnext | hnext <;> cases hnext.symm.trans hb
    · rcases hnext with hnext | hnext <;> cases hnext.symm.trans hb
  | submitAdvertise =>
    rw [hpc] at hk
    obtain rfl := Option.some.inj hk
    exact ⟨fun _ hnot => h.green (.inr hpc) hnot, fun hdone _ => h.shown hdone (.inr hpc),
      by simp [BtPc.next], by simp [BtPc.next]⟩

/-! ## The work queue thread -/

/-- The LEDs are switched off for a release before the link is shown,
or a callback shows it again. -/
private theorem linkShown_off (hlocal : ∀ t, Local t d) (h : LinkShown d) (c : Color) {pc : WorkqPc}
    (hmutex : d.workq.HasMutex) (hbefore : ¬(MainPc.Done .redOn d.main ∧ d.bt.Settled)) :
    LinkShown { d.effect .workq (.ledSet c false) with workq := pc } := by
  have hbt : BtLocal d := hlocal .bt
  have hworkq : WorkqLocal d := hlocal .workq
  have hwaits : ¬d.bt.HasMutex := hbt.not_hasMutex (hworkq.mutex.mpr hmutex) (by simp)
  refine ⟨fun hsettled hnot => ?_, fun hdone hsettled => ?_, fun b hb => ?_, fun b hb => ?_⟩
  · exact isOn_effect_of_off (t := .workq) (k := .ledSet c false) (h.green hsettled hnot) (by simp)
  · exact absurd ⟨hdone, hsettled⟩ hbefore
  · have hb' : d.bt = .ledOn b := hb
    exact absurd (by rw [hb']; trivial) hwaits
  · have hb' : d.bt = .ledUnlock b := hb
    exact absurd (by rw [hb']; trivial) hwaits

theorem linkShown_workqStep (hlocal : ∀ t, Local t d) (h : LinkShown d)
    (hunpressed : d'.gFlagButtonPressed = false) (hleaves : LeavesLink d .workq)
    (hstep : d.workqStep = some d') : LinkShown d' := by
  have hworkq : WorkqLocal d := hlocal .workq
  have hframe := frame_workqStep hworkq hstep
  have hunpressed' : d.gFlagButtonPressed = false := hframe.unpressed_before hunpressed
  -- the flag is not set, so this is neither the handler of a press nor that of the time-out
  have hnotAfter : ¬d.workq.AfterPress := fun hafter =>
    nomatch (hworkq.afterPress hafter).symm.trans hunpressed'
  obtain ⟨w, work, hidle, htake, rfl⟩ | ⟨k, hk, hcan, rfl⟩ := workqStep_cases hstep
  · exact h.congr rfl rfl rfl id
  · cases hpc : d.workq with
    | idle | rebooting => exact nomatch hpc ▸ hk
    | pressedGreenOn | pressedRedOn | pressedUnlock => exact absurd (by rw [hpc]; trivial) hnotAfter
    | offGreen w | offRed w =>
      rw [hpc] at hk
      obtain rfl := Option.some.inj hk
      cases w with
      | timeout => exact absurd (by rw [hpc]; trivial) hnotAfter
      | released =>
        refine linkShown_off hlocal h _ (by rw [hpc]; trivial) (hleaves.2 rfl ?_ hunpressed')
        first
        | exact .inl hpc
        | exact .inr hpc
    | _ =>
      rw [hpc] at hk
      obtain rfl := Option.some.inj hk
      exact h.congr rfl rfl rfl id

/-! ## Every run -/

theorem linkShown_boot : LinkShown .boot where
  green _ _ := rfl
  shown h := absurd h (by decide)
  ledOn := nofun
  ledUnlock := nofun

theorem linkShown_of_reach (h : device.Reach LeavesLink d)
    (hunpressed : d.gFlagButtonPressed = false) :
    LinkShown d := by
  refine h.invariant_of_reach (I := fun d => d.gFlagButtonPressed = false → LinkShown d)
    (fun _ => linkShown_boot) (fun d e d' hreach hshown hleaves hstep hunpressed => ?_) hunpressed
  have hlocal := local_of_reach hreach
  have hunpressed' : d.gFlagButtonPressed = false :=
    (device_step hlocal hstep).2.unpressed_before hunpressed
  have hlink := hshown hunpressed'
  cases e with
  | main expired => exact linkShown_mainStep hlocal hlink hunpressed' hleaves hstep
  | bt => exact linkShown_btStep hlocal hlink hunpressed' hstep
  | workq => exact linkShown_workqStep hlocal hlink hunpressed hleaves hstep
  | connected err =>
    obtain ⟨⟨-, hidle⟩, hnext⟩ := Option.ite_none_right_eq_some.mp hstep
    obtain rfl := Option.some.inj hnext
    split
    · exact hlink
    · exact linkShown_of_busy (by simp [BtPc.Settled]) nofun nofun
  | disconnected reason =>
    obtain ⟨⟨-, hidle⟩, hnext⟩ := Option.ite_none_right_eq_some.mp hstep
    obtain rfl := Option.some.inj hnext
    exact linkShown_of_busy (by simp [BtPc.Settled]) nofun nofun
  | btReady err | edge isPressed | expire w =>
    obtain ⟨work, rfl⟩ := device_step_isr rfl hstep
    exact hlink.congr rfl rfl rfl id

/-- If no step of a run disturbs the LEDs, then they show the link in each state that is reached
after main's start-up section and in which no callback is running and the button is not pressed,
whoever has the mutex. -/
theorem shows_link (h : device.Reach LeavesLink d) (hstarted : MainPc.Done .ledUnlock d.main)
    (hbt : d.bt = .idle) (hunpressed : d.gFlagButtonPressed = false) : Shows d d.gBtIsConnected :=
  (linkShown_of_reach h hunpressed).shown (Nat.lt_trans (by decide) hstarted) (.inl hbt)

end

/-- The calls of main up to the start of advertising. -/
def startUp : List Event := .replicate 13 (.main false)

/-- Bluetooth is ready, the device advertises, a client connects, and
`connected` runs to its end. -/
def connect : List Event :=
  [.btReady 0, .workq, .workq, .connected 0, .bt, .bt, .bt, .bt, .bt, .bt]

/-- Main's section and then the first client. -/
theorem shows_link_sample :
    ∃ d, device.Reach LeavesLink d ∧ d.gBtIsConnected = true ∧ Shows d d.gBtIsConnected := by
  obtain ⟨d, hreach, hstarted, hbt, hunpressed, hconnected⟩ :=
    exists_reach_of_exec (M := device) (C := LeavesLink)
      (P := fun d => MainPc.Done .ledUnlock d.main ∧ d.bt = .idle ∧ d.gFlagButtonPressed = false ∧
        d.gBtIsConnected = true)
      (startUp ++ .replicate 4 (.main false) ++ connect) (by decide)
  exact ⟨d, hreach, hconnected, shows_link hreach hstarted hbt hunpressed⟩

/-- If the first client is faster than main, red is switched on next to green. -/
theorem not_shows_link :
    ∃ d, device.Reach Any d ∧ MainPc.Done .ledUnlock d.main ∧ d.gFwloaderLedMutex = none ∧
      d.bt = .idle ∧ BetweenHandlers d ∧ d.gFlagButtonPressed = false ∧
      ¬Shows d d.gBtIsConnected :=
  exists_reach_of_exec (startUp ++ connect ++ .replicate 4 (.main false)) (by decide)

end FwLoader.Threads
