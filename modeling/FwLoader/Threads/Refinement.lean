import FwLoader.Threads.Programs

/-!
# The places describe the code

`device` knows a thread by its place, and one step for each call that matters to the others. Each
program of the threads stays in step with its places, wherever the others leave what is shared:
main through start-up, its whole main loop and the reboot, the callbacks of the Bluetooth stack and
the handlers of the work queue. So each interleaving of the programs is a run of `device`, in which
the calls that change nothing shared are left out.
-/

namespace FwLoader.Threads

open Foundations

/-! ## The places of the code -/

/-- A thread of `device` by its places. -/
def machine {π ι : Type} (t : Thread) (call : π → Option Call) (next : Device → ι → π → π) :
    Machine π Device ι where
  step pc d i := (d.make t (call pc)).map fun d' => (d', next d i pc)

/-- Main by its places. -/
abbrev mainMachine : Machine MainPc Device Bool := machine .main MainPc.call MainPc.next

/-- The Bluetooth thread by its places. -/
abbrev btMachine : Machine BtPc Device Unit := machine .bt BtPc.call fun d _ => BtPc.next d

/-- The work queue thread by its places. -/
abbrev workqMachine : Machine WorkqPc Device Unit :=
  machine .workq WorkqPc.call fun _ _ => WorkqPc.next

section

variable {π ι α : Type} {t : Thread} {call : π → Option Call} {next : Device → ι → π → π}
variable {Q : α → π → Prop} {pc pc' : π} {k : Call}

/-- A call that is made at a place and leads to another one. -/
theorem tracks_make [Inhabited ι] (pc' : π) (hk : call pc = some k)
    (hnext : ∀ d i, next d i pc = pc') :
    Prog.Tracks (semantics t) (machine t call next) (fun _ pc₁ => pc₁ = pc') pc (make k) := by
  refine fun d O r hr => .inr ⟨default, pc', ?_, rfl⟩
  have hcan : d.CanCall k := (Option.ite_none_right_eq_some.mp hr).1
  show (d.make t (call pc)).map (fun d' => (d', next d default pc)) = some (d.effect t k, pc')
  rw [hk, hnext, Device.make, Option.bind_some, if_pos hcan]
  rfl

/-- A call that changes nothing shared. -/
theorem tracks_board {c : BoardCall} (hc : ∀ k, c ≠ .call k) :
    Prog.Tracks (semantics t) (machine t call next) (fun _ pc' => pc' = pc) pc (board c) := by
  refine fun d O r _ => .inl ⟨?_, rfl⟩
  cases c with
  | call k => exact absurd rfl (hc k)
  | _ => rfl

/-- A test of something shared, or a call of main that is a place. -/
theorem tracks_read {c : Main.MainCall} {Q : Main.mainApi.Answer c → π → Prop}
    (hc : c ≠ .setFlagRebootRequested) (hk : call pc = some .read)
    (hnext : ∀ d O r, answerMain d O c = some r → ∃ i, Q r (next d i pc)) :
    Prog.Tracks (semantics t).left (machine t call next) Q pc (@Prog.perform Main.mainApi c) := by
  intro d O r hr
  obtain ⟨i, hQ⟩ := hnext d (fun c => O (Sum.inl c)) r hr
  have heffect : (semantics t).left.effect d c r = d := by
    cases c with
    | setFlagRebootRequested => exact absurd rfl hc
    | _ => rfl
  refine .inr ⟨i, next d i pc, ?_, hQ⟩
  show (d.make t (call pc)).map (fun d' => (d', next d i pc)) = _
  rw [hk, heffect]
  rfl

/-- The test of the button. -/
theorem tracks_unlessPressed {pc₁ pc₂ : π} [Inhabited ι] {p : Code}
    (hp : Prog.Tracks (semantics t) (machine t call next) (fun _ pc' => pc' = pc₂) pc₁ p) (pc : π)
    (hk : call pc = some .read)
    (hnext : ∀ d i, next d i pc = if d.gFlagButtonPressed then pc₂ else pc₁) :
    Prog.Tracks (semantics t) (machine t call next) (fun _ pc' => pc' = pc₂) pc
      (unlessPressed p) := by
  have hread : Prog.Tracks (semantics t).left (machine t call next)
      (fun r pc' => pc' = if r then pc₂ else pc₁) pc
      (@Prog.perform Main.mainApi .buttonIsPressed) := by
    refine tracks_read nofun hk fun d O r hr => ⟨default, ?_⟩
    obtain rfl := Option.some.inj hr
    exact hnext d default
  apply hread.inl.bind
  rintro (_ | _) _ rfl
  · exact hp
  · rfl

/-- The drivers of main change nothing that the threads share. -/
theorem tracks_of_onlyDrivers {p : Prog Main.mainApi α} (hp : Main.OnlyDrivers p) :
    Prog.Tracks (semantics t).left (machine t call next) (fun _ pc' => pc' = pc) pc p := by
  refine Prog.Tracks.of_onlyCalls (hp.mono fun c hc d _ => ?_)
  cases c with
  | setFlagRebootRequested => exact nomatch hc
  | _ => rfl

/-- A thread that sleeps stays where it is. -/
theorem tracks_kSleep (ms : ℕ) :
    Prog.Tracks (semantics t).left (machine t call next) (fun _ pc' => pc' = pc) pc
      (Main.kSleep ms) :=
  Prog.Tracks.of_onlyCalls ⟨fun _ _ => rfl, fun _ => trivial⟩

end

/-! ## Main -/

theorem tracks_fwloaderEarlyInitPostKernel :
    Prog.Tracks (semantics .main) mainMachine (fun _ pc => pc = .gpioPinSet .red)
      (.ledInitGpio .red) fwloaderEarlyInitPostKernel := by
  have hleds : Prog.Tracks (semantics .main) mainMachine (fun _ pc => pc = .redSetTrue)
      (.ledInitGpio .red) fwloaderLedEarlyInit := by
    unfold fwloaderLedEarlyInit
    refine Prog.Tracks.bind_eq (tracks_make (.ledInitGpio .green) rfl fun _ _ => rfl) fun _ => ?_
    exact tracks_make _ rfl fun _ _ => rfl
  refine Prog.Tracks.bind_eq (tracks_board nofun) fun _ => ?_
  refine Prog.Tracks.bind_eq hleds fun _ => ?_
  refine Prog.Tracks.bind_eq (tracks_board nofun) fun _ => ?_
  refine Prog.Tracks.bind_eq (tracks_make .buttonCbInit rfl fun _ _ => rfl) fun _ => ?_
  refine Prog.Tracks.bind_eq (tracks_kSleep _).inl fun _ => ?_
  refine Prog.Tracks.bind_eq (tracks_make .redSetFalse rfl fun _ _ => rfl) fun _ => ?_
  refine Prog.Tracks.bind_eq (tracks_board nofun) fun _ => ?_
  refine Prog.Tracks.bind_eq (tracks_make (.gpioPinSet .red) rfl fun _ _ => rfl) fun _ => ?_
  exact (tracks_kSleep _).inl

theorem tracks_fwloaderLedLateInitPwm :
    Prog.Tracks (semantics .main) mainMachine (fun _ pc => pc = .startSmpBluetoothAdverts)
      (.gpioPinSet .red) fwloaderLedLateInitPwm := by
  have hdeinit (c : Color) : Prog.Tracks (semantics .main) mainMachine (fun _ pc => pc = .pwmSet c)
      (.gpioPinSet c) (fwloaderLedDeinitGpio c) := by
    unfold fwloaderLedDeinitGpio
    refine Prog.Tracks.bind_eq (tracks_make (.gpioDisconnect c) rfl fun _ _ => rfl) fun _ => ?_
    exact tracks_make _ rfl fun _ _ => rfl
  refine Prog.Tracks.bind_eq (hdeinit .red) fun _ => ?_
  refine Prog.Tracks.bind_eq (tracks_make (.gpioPinSet .green) rfl fun _ _ => rfl) fun _ => ?_
  refine Prog.Tracks.bind_eq (hdeinit .green) fun _ => ?_
  refine Prog.Tracks.bind_eq (tracks_make .setPwmMode rfl fun _ _ => rfl) fun _ => ?_
  exact tracks_make _ rfl fun _ _ => rfl

theorem tracks_mainStartUp :
    Prog.Tracks (semantics .main) mainMachine (fun _ pc => pc = .testReboot)
      (.gpioPinSet .red) mainStartUp := by
  have hred : Prog.Tracks (semantics .main) mainMachine (fun _ pc => pc = .ledUnlock) .redOn
      (make (.ledSet .red true)) := tracks_make _ rfl fun _ _ => rfl
  unfold mainStartUp
  refine Prog.Tracks.bind_eq (tracks_board nofun) fun _ => ?_
  refine Prog.Tracks.bind_eq (tracks_board nofun) fun _ => ?_
  refine Prog.Tracks.bind_eq tracks_fwloaderLedLateInitPwm fun _ => ?_
  refine Prog.Tracks.bind_eq (tracks_board nofun) fun _ => ?_
  refine Prog.Tracks.bind_eq (tracks_board nofun) fun _ => ?_
  refine Prog.Tracks.bind_eq (tracks_board nofun) fun _ => ?_
  refine Prog.Tracks.bind_eq (tracks_board nofun) fun _ => ?_
  refine Prog.Tracks.bind_eq (tracks_make .ledLock rfl fun _ _ => rfl) fun _ => ?_
  refine Prog.Tracks.bind_eq (tracks_board nofun) fun _ => ?_
  refine Prog.Tracks.bind_eq (tracks_make .isPressed rfl fun _ _ => rfl) fun _ => ?_
  refine Prog.Tracks.bind_eq (tracks_unlessPressed hred .isPressed rfl fun _ _ => rfl) fun _ => ?_
  exact tracks_make _ rfl fun _ _ => rfl

theorem tracks_feedUnlessPressed :
    Prog.Tracks (semantics .main).left mainMachine (fun _ pc => pc = .testTimeout) .testPressed
      Main.feedUnlessPressed := by
  have hread : Prog.Tracks (semantics .main).left mainMachine
      (fun r pc => pc = if r then .testTimeout else .watchdogFeed) .testPressed
      (@Prog.perform Main.mainApi .buttonIsPressed) := by
    refine tracks_read nofun rfl fun d O r hr => ⟨false, ?_⟩
    obtain rfl := Option.some.inj hr
    rfl
  apply hread.bind
  rintro (_ | _) _ rfl
  · exact tracks_read nofun rfl fun _ _ _ _ => ⟨false, rfl⟩
  · rfl

/-- The last call of a poll is the step at which the time-out is known. -/
theorem tracks_pollUploads (T uploadingTimeoutCnt : UInt32) :
    Prog.Tracks (semantics .main).left mainMachine
      (fun cnt pc => pc = if cnt ≥ T then .rebooting else .testReboot) .testTimeout
      (Main.pollUploads uploadingTimeoutCnt) := by
  have hnext (d : Device) (cnt : UInt32) : MainPc.next d (decide (cnt ≥ T)) .testTimeout =
      if cnt ≥ T then .rebooting else .testReboot := by
    simp only [MainPc.next, decide_eq_true_iff]
  have hpoll : Prog.Tracks (semantics .main).left mainMachine
      (fun isUploading pc =>
        pc = if (if isUploading then 0 else uploadingTimeoutCnt + 1) ≥ T then .rebooting
          else .testReboot) .testTimeout
      (@Prog.perform Main.mainApi .isUploadingInProgress) :=
    tracks_read nofun rfl fun d _ _ _ => ⟨_, hnext d _⟩
  intro d O isConnected _
  cases isConnected with
  | false => exact .inr ⟨_, _, rfl, hnext d _⟩
  | true =>
    refine .inl ⟨rfl, ?_⟩
    apply hpoll.bind
    rintro (_ | _) _ rfl
    · rfl
    · rfl

theorem tracks_blinkRgbLed :
    Prog.Tracks (semantics .main).left mainMachine (fun _ pc => pc = .testReboot) .testReboot
      Main.blinkRgbLed := by
  have hset (pwms : Main.RgbLedPwms) :
      Prog.Tracks (semantics .main).left mainMachine (fun _ pc => pc = .testReboot) .testReboot
        (Main.fwloaderRgbLedSetRawCurrentsAndPwms Main.rgbLedCurrents pwms) :=
    tracks_of_onlyDrivers (Main.fwloaderRgbLedSetRawCurrentsAndPwms_onlyDrivers _ _)
  refine Prog.Tracks.skip (fun _ _ => rfl) fun ready => Prog.Tracks.ite (fun _ => ?_) fun _ =>
    tracks_kSleep _
  refine Prog.Tracks.bind_eq
    (tracks_of_onlyDrivers Main.fwloaderRgbLedCheckAndReinitIfNeeded_onlyDrivers) fun _ => ?_
  refine Prog.Tracks.bind_eq (hset _) fun _ => ?_
  refine Prog.Tracks.bind_eq (tracks_kSleep _) fun _ => ?_
  refine Prog.Tracks.bind_eq (hset _) fun _ => ?_
  exact tracks_kSleep _

/-- A round goes on where it began, or it is left for the reboot. -/
theorem tracks_mainLoopRound (T uploadingTimeoutCnt : UInt32) :
    Prog.Tracks (semantics .main).left mainMachine
      (fun res pc => Sum.elim (fun _ => pc = .testReboot) (fun _ => pc = .rebooting) res)
      .testReboot (Main.mainLoopRound T uploadingTimeoutCnt) := by
  have hread : Prog.Tracks (semantics .main).left mainMachine
      (fun r pc => pc = if r then .rebooting else .testPressed) .testReboot
      (@Prog.perform Main.mainApi .flagRebootRequested) := by
    refine tracks_read nofun rfl fun d O r hr => ⟨false, ?_⟩
    obtain rfl := Option.some.inj hr
    rfl
  apply hread.bind
  rintro (_ | _) _ rfl
  · refine Prog.Tracks.bind_eq tracks_feedUnlessPressed fun _ => ?_
    apply (tracks_pollUploads T uploadingTimeoutCnt).bind
    rintro cnt _ rfl
    by_cases hexpired : cnt ≥ T
    · rw [if_pos hexpired, if_pos hexpired]
      exact Prog.Tracks.pure rfl
    · rw [if_neg hexpired, if_neg hexpired]
      exact Prog.Tracks.bind_eq tracks_blinkRgbLed fun _ => Prog.Tracks.pure rfl
  · rfl

theorem tracks_rebootFromMainThread (fw : Mgmt.RuuviFw) (gFsDirEntry : Mgmt.FsDirEntryType) :
    Prog.Tracks (semantics .main).left mainMachine (fun _ pc => pc = .rebooting) .rebooting
      (Main.rebootFromMainThread fw gFsDirEntry) := by
  refine Prog.Tracks.bind_eq (tracks_of_onlyDrivers Main.turnOffRgbLed_onlyDrivers) fun _ => ?_
  refine Prog.Tracks.bind_eq
    (tracks_of_onlyDrivers (Main.flagUpdatesAvailable_onlyDrivers fw gFsDirEntry)) fun flag => ?_
  refine Prog.Tracks.bind_eq
    (tracks_of_onlyDrivers (Main.announceUpdates_onlyDrivers flag)) fun _ => ?_
  refine Prog.Tracks.bind_eq (tracks_kSleep _) fun _ => ?_
  exact fun _ _ _ _ => .inl ⟨rfl, rfl⟩

theorem tracks_mainFromLoop (T : UInt32) (fw : Mgmt.RuuviFw) (gFsDirEntry : Mgmt.FsDirEntryType)
    (n : ℕ) :
    Prog.Tracks (semantics .main).left mainMachine (fun _ _ => True) .testReboot
      (Main.mainFromLoop T fw gFsDirEntry n) := by
  have hloop : Prog.Tracks (semantics .main).left mainMachine
      (fun res pc => res.isSome = true → pc = .rebooting) .testReboot
      (Prog.loop (Main.mainLoopRound T) n 0) := by
    refine Prog.Tracks.loop (I := fun _ pc => pc = .testReboot) ?_ (fun _ _ _ => nofun) rfl
    rintro cnt _ rfl
    apply (tracks_mainLoopRound T cnt).mono
    rintro (_ | _) pc hpc
    · exact hpc
    · exact fun _ => hpc
  apply hloop.bind
  rintro (_ | reason) pc hpc
  · trivial
  · obtain rfl := hpc rfl
    exact Prog.Tracks.bind_eq (tracks_rebootFromMainThread fw gFsDirEntry) fun _ => trivial

theorem tracks_mainCode (T : UInt32) (fw : Mgmt.RuuviFw) (gFsDirEntry : Mgmt.FsDirEntryType)
    (n : ℕ) :
    Prog.Tracks (semantics .main) mainMachine (fun _ _ => True) (.ledInitGpio .red)
      (mainCode T fw gFsDirEntry n) := by
  refine Prog.Tracks.bind_eq tracks_fwloaderEarlyInitPostKernel fun _ => ?_
  refine Prog.Tracks.bind_eq tracks_mainStartUp fun _ => ?_
  exact (tracks_mainFromLoop T fw gFsDirEntry n).inl.bind fun _ _ _ => trivial

/-! ## The other threads -/

/-- The two LEDs after a change of the connection. -/
theorem tracks_connectionLeds (isConnected : Bool) :
    Prog.Tracks (semantics .bt) btMachine (fun _ pc => pc = .ledUnlock isConnected)
      (.isPressed isConnected) (unlessPressed do
        make (.ledSet (if isConnected then .red else .green) false)
        make (.ledSet (if isConnected then .green else .red) true)) := by
  have hleds : Prog.Tracks (semantics .bt) btMachine (fun _ pc => pc = .ledUnlock isConnected)
      (.ledOff isConnected) (do
        make (.ledSet (if isConnected then .red else .green) false)
        make (.ledSet (if isConnected then .green else .red) true)) := by
    refine Prog.Tracks.bind_eq (tracks_make (.ledOn isConnected) rfl fun _ _ => rfl) fun _ => ?_
    exact tracks_make _ rfl fun _ _ => rfl
  exact tracks_unlessPressed hleds (.isPressed isConnected) rfl fun _ _ => rfl

theorem tracks_connected {err : UInt8} (herr : err = 0) :
    Prog.Tracks (semantics .bt) btMachine (fun _ pc => pc = .idle) (.setFlag true)
      (connected err) := by
  rw [connected, if_neg (not_not.mpr herr.symm)]
  refine Prog.Tracks.bind_eq (tracks_make (.ledLock true) rfl fun _ _ => rfl) fun _ => ?_
  refine Prog.Tracks.bind_eq (tracks_make (.isPressed true) rfl fun _ _ => rfl) fun _ => ?_
  refine Prog.Tracks.bind_eq (tracks_connectionLeds true) fun _ => ?_
  exact tracks_make _ rfl fun _ _ => rfl

theorem tracks_disconnected (reason : UInt8) :
    Prog.Tracks (semantics .bt) btMachine (fun _ pc => pc = .idle) (.setFlag false)
      (disconnected reason) := by
  refine Prog.Tracks.bind_eq (tracks_make (.ledLock false) rfl fun _ _ => rfl) fun _ => ?_
  refine Prog.Tracks.bind_eq (tracks_make (.isPressed false) rfl fun _ _ => rfl) fun _ => ?_
  refine Prog.Tracks.bind_eq (tracks_connectionLeds false) fun _ => ?_
  refine Prog.Tracks.bind_eq (tracks_make .submitAdvertise rfl fun _ _ => rfl) fun _ => ?_
  exact tracks_make _ rfl fun _ _ => rfl

theorem tracks_buttonWorkqCbPressed :
    Prog.Tracks (semantics .workq) workqMachine (fun _ pc => pc = .idle) .pressedReschedule
      buttonWorkqCbPressed := by
  refine Prog.Tracks.bind_eq (tracks_make .pressedLock rfl fun _ _ => rfl) fun _ => ?_
  refine Prog.Tracks.bind_eq (tracks_make .pressedSet rfl fun _ _ => rfl) fun _ => ?_
  refine Prog.Tracks.bind_eq (tracks_make .pressedGreenOn rfl fun _ _ => rfl) fun _ => ?_
  refine Prog.Tracks.bind_eq (tracks_make .pressedRedOn rfl fun _ _ => rfl) fun _ => ?_
  refine Prog.Tracks.bind_eq (tracks_make .pressedUnlock rfl fun _ _ => rfl) fun _ => ?_
  exact tracks_make _ rfl fun _ _ => rfl

/-- Both handlers that switch the LEDs off, from where they lock. -/
theorem tracks_off (w : OffWork) :
    Prog.Tracks (semantics .workq) workqMachine (fun _ pc => pc = .idle) (.offLock w)
      buttonWorkqCbTimeout := by
  refine Prog.Tracks.bind_eq (tracks_make (.offGreen w) rfl fun _ _ => rfl) fun _ => ?_
  refine Prog.Tracks.bind_eq (tracks_make (.offRed w) rfl fun _ _ => rfl) fun _ => ?_
  refine Prog.Tracks.bind_eq (tracks_make (.offUnlock w) rfl fun _ _ => rfl) fun _ => ?_
  refine Prog.Tracks.bind_eq (tracks_make (.offReschedule w) rfl fun _ _ => rfl) fun _ => ?_
  exact tracks_make _ rfl fun _ _ => rfl

/-- The thread that has requested the reboot goes on sleeping. -/
theorem tracks_buttonWorkqCbReboot (fw : Mgmt.RuuviFw) (gFsDirEntry : Mgmt.FsDirEntryType)
    (n : ℕ) :
    Prog.Tracks (semantics .workq) workqMachine (fun _ pc => pc = .idle) .reboot
      (buttonWorkqCbReboot fw gFsDirEntry n) := by
  have hwait : Prog.Tracks (semantics .workq).left workqMachine (fun _ pc => pc = .rebooting)
      .rebooting (Prog.loop Main.waitForReboot n ()) := by
    refine Prog.Tracks.of_onlyCalls (Prog.OnlyCalls.loop (fun _ => ?_) n ())
    exact Prog.onlyCalls_perform_bind (fun _ _ => rfl) fun _ => trivial
  have hrequest : Prog.Tracks (semantics .workq).left workqMachine (fun _ pc => pc = .rebooting)
      .reboot (Main.wrapSysReboot fw gFsDirEntry false n) := by
    have hrest : Prog.Tracks (semantics .workq).left workqMachine (fun _ pc => pc = .rebooting)
        .rebooting (Prog.loop Main.waitForReboot n () >>= fun _ => pure ()) :=
      Prog.Tracks.bind_eq hwait fun _ => Prog.Tracks.pure rfl
    exact fun d O _ _ => .inr ⟨(), .rebooting, rfl, hrest⟩
  refine Prog.Tracks.bind_eq hrequest.inl fun _ d O r hr => ?_
  exact absurd (hr : none = some r) nofun

theorem tracks_advertise :
    Prog.Tracks (semantics .workq) workqMachine (fun _ pc => pc = .idle) .advertise
      Threads.advertise := by
  refine Prog.Tracks.bind_eq (tracks_board nofun) fun _ => ?_
  exact fun d O _ _ => .inr ⟨(), .idle, rfl, rfl⟩

/-- Each handler begins at its place and leaves the work queue thread idle. -/
theorem tracks_handler (fw : Mgmt.RuuviFw) (gFsDirEntry : Mgmt.FsDirEntryType) (n : ℕ) (w : Work) :
    Prog.Tracks (semantics .workq) workqMachine (fun _ pc => pc = .idle) w.handler
      (w.code fw gFsDirEntry n) := by
  cases w with
  | pressed => exact tracks_buttonWorkqCbPressed
  | released => exact Prog.Tracks.bind_eq (tracks_make _ rfl fun _ _ => rfl) fun _ =>
      tracks_off .released
  | timeout => exact tracks_off .timeout
  | reboot => exact tracks_buttonWorkqCbReboot fw gFsDirEntry n
  | advertise => exact tracks_advertise

/-! ## The simulation -/

/-- What is shared, with the threads at some places. -/
def Device.withPlaces (d : Device) (main : MainPc) (bt : BtPc) (workq : WorkqPc) : Device :=
  { d with main := main, bt := bt, workq := workq }

/-- The code that is left to each thread belongs to its place. -/
structure Matches (s : Source) (main : MainPc) (bt : BtPc) (workq : WorkqPc) : Prop where
  main : Prog.Tracks (semantics .main) mainMachine (fun _ _ => True) main s.main
  bt : Prog.Tracks (semantics .bt) btMachine (fun _ pc => pc = .idle) bt s.bt
  workq : Prog.Tracks (semantics .workq) workqMachine (fun _ pc => pc = .idle) workq s.workq

/-- The device is at places that match the code that is left. -/
def Simulates (s : Source) (d : Device) : Prop :=
  ∃ main bt workq, d = s.shared.withPlaces main bt workq ∧ Matches s main bt workq

/-- Steps of the device that match an event of the programs. -/
def Simulated (d : Device) (e : SourceEvent) (s : Source) : Prop :=
  ∃ es d', device.Run System.Any d es d' ∧ Simulates s d' ∧
    es.filterMap Event.outside = [e].filterMap SourceEvent.outside

section

variable {d d' v : Device} {s s' : Source} {O : Oracle threadApi} {p : Code} {t : Thread}
variable {main : MainPc} {bt : BtPc} {workq : WorkqPc}

/-- The places do not matter to a call. -/
theorem make_withPlaces {k : Option Call} (h : d.make t k = some v) :
    (d.withPlaces main bt workq).make t k = some (v.withPlaces main bt workq) := by
  obtain ⟨k, rfl, hmake⟩ := Option.bind_eq_some_iff.mp h
  obtain ⟨hcan, hv⟩ := Option.ite_none_right_eq_some.mp hmake
  obtain rfl : d.effect t k = v := Option.some.inj hv
  have heffect : (d.withPlaces main bt workq).effect t k =
      (d.effect t k).withPlaces main bt workq := by
    cases k <;> rfl
  have hcan' : (d.withPlaces main bt workq).CanCall k := hcan
  rw [Device.make, Option.bind_some, if_pos hcan', heffect]

/-- A step of a machine. -/
theorem machine_step_eq_some {π ι : Type} {call : π → Option Call} {next : Device → ι → π → π}
    {pc pc' : π} {i : ι} (h : (machine t call next).step pc d i = some (v, pc')) :
    d.make t (call pc) = some v ∧ next d i pc = pc' := by
  obtain ⟨v', hmake, hpair⟩ := Option.map_eq_some_iff.mp h
  obtain ⟨rfl, rfl⟩ := Prod.mk.inj hpair
  exact ⟨hmake, rfl⟩

/-- A step of the programs that the device does not see. -/
theorem simulated_of_silent {e : SourceEvent} (he : e.outside = none) (h : Simulates s d) :
    Simulated d e s := ⟨[], d, .nil, h, by simp [he]⟩

/-- A step of the programs that is one step of the device. -/
theorem simulated_of_step {e : SourceEvent} (e' : Event) (he : e'.outside = e.outside)
    (hstep : device.step d e' = some d') (h : Simulates s d') : Simulated d e s := by
  refine ⟨[e'], d', System.Run.nil.snoc trivial hstep, h, ?_⟩
  rw [List.filterMap_cons, List.filterMap_cons, he]
  rfl

theorem Matches.simulated_main (h : Matches s main bt workq)
    (hp : s.main.advance (semantics .main) s.shared O = some (v, p)) :
    Simulated (s.shared.withPlaces main bt workq) (.main O) { s with shared := v, main := p } := by
  rcases h.main.advance hp with ⟨rfl, hmain⟩ | ⟨expired, pc, hstep, hmain⟩
  · exact simulated_of_silent rfl ⟨main, bt, workq, rfl, hmain, h.bt, h.workq⟩
  · obtain ⟨hmake, rfl⟩ := machine_step_eq_some hstep
    refine simulated_of_step (.main expired) rfl ?_ ⟨_, bt, workq, rfl, hmain, h.bt, h.workq⟩
    show ((s.shared.withPlaces main bt workq).make .main main.call).map _ = _
    rw [make_withPlaces hmake]
    rfl

theorem Matches.simulated_bt (h : Matches s main bt workq)
    (hp : s.bt.advance (semantics .bt) s.shared O = some (v, p)) :
    Simulated (s.shared.withPlaces main bt workq) (.bt O) { s with shared := v, bt := p } := by
  rcases h.bt.advance hp with ⟨rfl, hbt⟩ | ⟨_, pc, hstep, hbt⟩
  · exact simulated_of_silent rfl ⟨main, bt, workq, rfl, h.main, hbt, h.workq⟩
  · obtain ⟨hmake, rfl⟩ := machine_step_eq_some hstep
    refine simulated_of_step .bt rfl ?_ ⟨main, _, workq, rfl, h.main, hbt, h.workq⟩
    show ((s.shared.withPlaces main bt workq).make .bt bt.call).map _ = _
    rw [make_withPlaces hmake]
    rfl

theorem Matches.simulated_workq (h : Matches s main bt workq)
    (hp : s.workq.advance (semantics .workq) s.shared O = some (v, p)) :
    Simulated (s.shared.withPlaces main bt workq) (.workq O)
      { s with shared := v, workq := p } := by
  rcases h.workq.advance hp with ⟨rfl, hworkq⟩ | ⟨_, pc, hstep, hworkq⟩
  · exact simulated_of_silent rfl ⟨main, bt, workq, rfl, h.main, h.bt, hworkq⟩
  · obtain ⟨hmake, rfl⟩ := machine_step_eq_some hstep
    -- a place with a call is not the idle one
    have hbusy : workq ≠ .idle := by
      rintro rfl
      exact nomatch hmake
    refine simulated_of_step .workq rfl ?_ ⟨main, bt, _, rfl, h.main, h.bt, hworkq⟩
    show (if workq = .idle then _
      else ((s.shared.withPlaces main bt workq).make .workq workq.call).map _) = _
    rw [if_neg hbusy, make_withPlaces hmake]
    rfl

end

/-- Each step of the programs is a step of the device, or none. -/
theorem simulated_of_source_step {T : UInt32} {fw : Mgmt.RuuviFw}
    {gFsDirEntry : Mgmt.FsDirEntryType} {n : ℕ} {s s' : Source} {d : Device} {e : SourceEvent}
    (h : Simulates s d) (hstep : (source T fw gFsDirEntry n).step s e = some s') :
    Simulated d e s' := by
  obtain ⟨main, bt, workq, rfl, hplaces⟩ := h
  cases e with
  | main O =>
    obtain ⟨⟨v, p⟩, hp, rfl⟩ := Option.map_eq_some_iff.mp hstep
    exact hplaces.simulated_main hp
  | bt O =>
    obtain ⟨⟨v, p⟩, hp, rfl⟩ := Option.map_eq_some_iff.mp hstep
    exact hplaces.simulated_bt hp
  | workq O =>
    change (if s.workq.hasEnded = true then _ else _) = some s' at hstep
    split at hstep
    · rename_i hend
      obtain ⟨-, rfl⟩ := hplaces.workq.of_hasEnded hend
      obtain ⟨⟨w, work⟩, htake, rfl⟩ := Option.map_eq_some_iff.mp hstep
      refine simulated_of_step .workq rfl ?_ ⟨main, bt, w.handler, rfl, hplaces.main,
        hplaces.bt, tracks_handler fw gFsDirEntry n w⟩
      show (s.shared.work.take).map _ = _
      rw [htake]
      rfl
    · obtain ⟨⟨v, p⟩, hp, rfl⟩ := Option.map_eq_some_iff.mp hstep
      exact hplaces.simulated_workq hp
  | connected err =>
    obtain ⟨⟨henabled, hend⟩, hs'⟩ := Option.ite_none_right_eq_some.mp hstep
    obtain rfl := Option.some.inj hs'
    obtain ⟨-, rfl⟩ := hplaces.bt.of_hasEnded hend
    by_cases herr : err = 0
    · refine simulated_of_step (.connected err) rfl ?_ ⟨main, .setFlag true, workq, rfl,
        hplaces.main, tracks_connected herr, hplaces.workq⟩
      subst herr
      exact if_pos ⟨henabled, rfl⟩
    · have hconnected : connected err = pure () := if_pos fun h => herr h.symm
      refine simulated_of_step (.connected err) rfl ?_ ⟨main, .idle, workq, rfl,
        hplaces.main, ?_, hplaces.workq⟩
      · refine (if_pos ⟨henabled, rfl⟩).trans ?_
        rw [if_pos herr]
      · rw [hconnected]
        rfl
  | disconnected reason =>
    obtain ⟨⟨henabled, hend⟩, hs'⟩ := Option.ite_none_right_eq_some.mp hstep
    obtain rfl := Option.some.inj hs'
    obtain ⟨-, rfl⟩ := hplaces.bt.of_hasEnded hend
    refine simulated_of_step (.disconnected reason) rfl ?_ ⟨main, .setFlag false, workq, rfl,
      hplaces.main, tracks_disconnected reason, hplaces.workq⟩
    exact if_pos ⟨henabled, rfl⟩
  | btReady err =>
    obtain ⟨henabled, hs'⟩ := Option.ite_none_right_eq_some.mp hstep
    obtain rfl := Option.some.inj hs'
    refine simulated_of_step (.btReady err) rfl ?_ ⟨main, bt, workq, rfl, hplaces.main,
      hplaces.bt, hplaces.workq⟩
    refine (if_pos henabled).trans ?_
    unfold Device.btReady
    split <;> rfl
  | edge isPressed =>
    obtain ⟨hint, hs'⟩ := Option.ite_none_right_eq_some.mp hstep
    obtain rfl := Option.some.inj hs'
    refine simulated_of_step (.edge isPressed) rfl ?_ ⟨main, bt, workq, rfl, hplaces.main,
      hplaces.bt, hplaces.workq⟩
    exact if_pos hint
  | expire w =>
    obtain ⟨work, hexpire, rfl⟩ := Option.map_eq_some_iff.mp hstep
    refine simulated_of_step (.expire w) rfl ?_ ⟨main, bt, workq, rfl, hplaces.main,
      hplaces.bt, hplaces.workq⟩
    show (s.shared.work.expire w).map _ = _
    rw [hexpire]
    rfl

/-- In every interleaving, and whatever the drivers answer, the programs of the threads do what
`device` does with its places: each run of them is a run of `device` with the same interrupts,
callbacks and expired delays, and leaves the same behind in all that the threads share. Only the
calls that `BoardCall.call` spells out, those of the pinhole LEDs, of the button's interrupt and of
`bt_enable`, have no result here and do what they are called for. -/
theorem source_refines_device (T : UInt32) (fw : Mgmt.RuuviFw) (gFsDirEntry : Mgmt.FsDirEntryType)
    (n : ℕ) {es : List SourceEvent} {s : Source}
    (h : (source T fw gFsDirEntry n).Run System.Any (source T fw gFsDirEntry n).init es s) :
    ∃ es' d, device.Run System.Any device.init es' d ∧
      d = s.shared.withPlaces d.main d.bt d.workq ∧
      es'.filterMap Event.outside = es.filterMap SourceEvent.outside := by
  have hinit : Simulates (source T fw gFsDirEntry n).init device.init :=
    ⟨.ledInitGpio .red, .idle, .idle, rfl, tracks_mainCode T fw gFsDirEntry n, rfl, rfl⟩
  obtain ⟨es', d, hrun, ⟨main, bt, workq, rfl, -⟩, hevents⟩ :=
    h.simulate (fun s e s' d hs _ hstep => simulated_of_source_step hs hstep) hinit
  exact ⟨es', _, hrun, rfl, hevents⟩

/-- What the environment answers in a sample. -/
def threadAnswers : Oracle threadApi
  | .inl c => Main.sampleAnswers c
  | .inr .btLeAdvStart => (0 : Int32)
  | .inr (.call _) | .inr .supercapInit | .inr (.extFlashPower _) | .inr .fwVerInit
  | .inr .seggerRttCheckDataLocationAndSize | .inr .settingsInit | .inr .fsMount
  | .inr .watchdogStart | .inr .statsInitAndReg | .inr .mgmtCallbacksInit | .inr .btLeAdvStop
  | .inr .cutOff => ()

/-- The programs, with two rounds of each loop. -/
def sampleSource : System Source SourceEvent := source 300 Mgmt.sampleFw .dir 2

/-- The button is pressed during early init, and the handler runs. -/
theorem source_refines_device_sample :
    ∃ es d, device.Run System.Any device.init es d ∧ d.gFlagButtonPressed = true ∧
      es.filterMap Event.outside = [.edge true] := by
  have hpress : (sampleSource.exec System.Any sampleSource.init
      (.replicate 7 (.main threadAnswers) ++ .edge true :: .replicate 7 (.workq threadAnswers))).any
        (fun s => decide (s.shared.gFlagButtonPressed = true)) = true := by decide
  obtain ⟨s, hrun, hpressed⟩ := System.exists_run_of_exec hpress
  obtain ⟨es, d, hdevice, hshared, hevents⟩ := source_refines_device 300 Mgmt.sampleFw .dir 2 hrun
  refine ⟨es, d, hdevice, ?_, hevents⟩
  rw [hshared]
  exact hpressed

end FwLoader.Threads
