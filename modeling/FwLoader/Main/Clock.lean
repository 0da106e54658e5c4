import FwLoader.Main.Loop

/-!
# How long main sleeps

Main is watched with a clock that counts the time it asks to sleep. It says how long ago the
watchdog was fed, and how long ago an upload was noticed. `Clock.Ok` bounds both at every call: the
watchdog by the number of samples at which the button was pressed, and the time without uploads by
the time-out of the monitor.
-/

namespace FwLoader.Main

open Foundations Mgmt

/-- What is counted of the calls of main. -/
structure Clock where
  /-- The time that main has slept. -/
  ms : ℕ
  /-- The time since the watchdog was fed. -/
  sinceFed : ℕ
  /-- The number of samples since then at which the button was pressed. -/
  pressed : ℕ
  /-- The time since an upload was noticed, or since the start. -/
  quietMs : ℕ
  /-- Whether an upload has been noticed. -/
  noticed : Bool
deriving DecidableEq

namespace Clock

/-- The clock when the loop begins. -/
def start : Clock := ⟨0, 0, 0, 0, false⟩

/-- Main sleeps. -/
def sleep (w : Clock) (ms : ℕ) : Clock :=
  { w with ms := w.ms + ms, sinceFed := w.sinceFed + ms, quietMs := w.quietMs + ms }

/-- What a call counts. -/
def next (w : Clock) : Event mainApi → Clock
  | ⟨.kSleep ms, _⟩ => w.sleep ms
  | ⟨.watchdogFeed, _⟩ => { w with sinceFed := 0, pressed := 0 }
  | ⟨.buttonIsPressed, pressed⟩ => if pressed = true then { w with pressed := w.pressed + 1 } else w
  | ⟨.isUploadingInProgress, isUploading⟩ =>
    if isUploading = true then { w with quietMs := 0, noticed := true } else w
  | _ => w

/-- The clock behind some calls. -/
def after (es : List (Event mainApi)) : Clock := es.foldl next start

/-- The time without uploads at which main reboots the device. -/
def limitMs (T : UInt32) (w : Clock) : ℕ :=
  blinkIntervalMs * if w.noticed then T.toNat else T.toNat - 1

/-- How long `__wrap_sys_reboot` sleeps. -/
def rebootMs : ℕ := 25

/-- The bounds at every call. -/
structure Ok (T : UInt32) (w : Clock) : Prop where
  fed : w.sinceFed ≤ blinkIntervalMs * (w.pressed + 1) + rebootMs
  held : blinkIntervalMs * w.pressed ≤ w.sinceFed + blinkIntervalMs
  quiet : w.quietMs ≤ w.limitMs T + rebootMs

instance (T : UInt32) : DecidablePred (Ok T) := fun w =>
  decidable_of_iff (w.sinceFed ≤ blinkIntervalMs * (w.pressed + 1) + rebootMs ∧
    blinkIntervalMs * w.pressed ≤ w.sinceFed + blinkIntervalMs ∧ w.quietMs ≤ w.limitMs T + rebootMs)
    ⟨fun ⟨h₁, h₂, h₃⟩ => ⟨h₁, h₂, h₃⟩, fun ⟨h₁, h₂, h₃⟩ => ⟨h₁, h₂, h₃⟩⟩

/-- What holds when a round begins: the rounds without an upload are counted, and the seconds since
the watchdog was fed are those of the samples since then, with one more of the round that fed it. -/
structure AtRound (T uploadingTimeoutCnt : UInt32) (w : Clock) : Prop where
  fed : w.sinceFed ≤ blinkIntervalMs * (w.pressed + 1)
  held : blinkIntervalMs * w.pressed ≤ w.sinceFed
  quiet : w.quietMs = blinkIntervalMs * (uploadingTimeoutCnt.toNat + if w.noticed then 1 else 0)
  below : uploadingTimeoutCnt < T ∨ w.noticed = false ∧ uploadingTimeoutCnt = 0

end Clock

/-- Main is watched with the clock. -/
abbrev clocked (T : UInt32) : Protocol mainApi Clock := .watch Clock.next (Clock.Ok T)

section

variable {T uploadingTimeoutCnt : UInt32} {w : Clock}

namespace Clock

theorem AtRound.quiet_le (h : AtRound T uploadingTimeoutCnt w) : w.quietMs ≤ w.limitMs T := by
  rw [h.quiet, limitMs]
  apply Nat.mul_le_mul_left
  rcases h.below with hlt | ⟨hnoticed, rfl⟩
  · have hlt' : uploadingTimeoutCnt.toNat < T.toNat := hlt
    split <;> omega
  · rw [hnoticed]
    exact Nat.zero_le _

theorem AtRound.ok (h : AtRound T uploadingTimeoutCnt w) : Ok T w where
  fed := Nat.le_add_right_of_le h.fed
  held := Nat.le_add_right_of_le h.held
  quiet := Nat.le_add_right_of_le h.quiet_le

theorem atRound_start (T : UInt32) : AtRound T 0 start where
  fed := Nat.zero_le _
  held := Nat.le_refl _
  quiet := rfl
  below := .inr ⟨rfl, rfl⟩

theorem sleep_sleep (w : Clock) (ms ms' : ℕ) : (w.sleep ms).sleep ms' = w.sleep (ms + ms') := by
  simp only [sleep, Nat.add_assoc]

/-- Below its limit the time-out does not wrap around. -/
theorem AtRound.toNat_add_one (h : AtRound T uploadingTimeoutCnt w) :
    (uploadingTimeoutCnt + 1).toNat = uploadingTimeoutCnt.toNat + 1 := by
  rcases h.below with hlt | ⟨-, rfl⟩
  · have hlt' : uploadingTimeoutCnt.toNat < T.toNat := hlt
    have hT := T.toNat_lt
    rw [UInt32.toNat_add, UInt32.toNat_one, Nat.mod_eq_of_lt (by omega)]
  · rfl

/-- What holds behind the sample of the button. -/
structure Sampled (w : Clock) : Prop where
  fed : w.sinceFed ≤ blinkIntervalMs * w.pressed
  held : blinkIntervalMs * w.pressed ≤ w.sinceFed + blinkIntervalMs

/-- What holds behind the poll for uploads. -/
structure Polled (T uploadingTimeoutCnt : UInt32) (w : Clock) : Prop extends Sampled w where
  quiet : w.quietMs + blinkIntervalMs =
    blinkIntervalMs * (uploadingTimeoutCnt.toNat + if w.noticed then 1 else 0)
  quiet_le : w.quietMs ≤ w.limitMs T
  expired : T ≤ uploadingTimeoutCnt → w.quietMs = w.limitMs T

theorem Sampled.ok (h : Sampled w) (hquiet : w.quietMs ≤ w.limitMs T) : Ok T w where
  fed := by
    have hfed := h.fed
    rw [Nat.mul_succ]
    omega
  held := h.held
  quiet := Nat.le_add_right_of_le hquiet

/-- There is time for the blink before the time-out. -/
theorem Polled.limit_of_lt (h : Polled T uploadingTimeoutCnt w) (hlt : uploadingTimeoutCnt < T) :
    w.quietMs + blinkIntervalMs ≤ w.limitMs T := by
  have hlt' : uploadingTimeoutCnt.toNat < T.toNat := hlt
  rw [h.quiet, limitMs]
  apply Nat.mul_le_mul_left
  split <;> omega

theorem Polled.ok_sleep (h : Polled T uploadingTimeoutCnt w) (hlt : uploadingTimeoutCnt < T)
    {ms : ℕ} (hms : ms ≤ blinkIntervalMs) : Ok T (w.sleep ms) where
  fed := by
    have hfed := h.fed
    simp only [sleep, Nat.mul_succ]
    omega
  held := by
    have hheld := h.held
    simp only [sleep]
    omega
  quiet := by
    have hlimit := h.limit_of_lt hlt
    have hsame : (w.sleep ms).limitMs T = w.limitMs T := rfl
    rw [hsame]
    simp only [sleep]
    omega

theorem Polled.atRound (h : Polled T uploadingTimeoutCnt w) (hlt : uploadingTimeoutCnt < T) :
    AtRound T uploadingTimeoutCnt (w.sleep blinkIntervalMs) where
  fed := by
    have hfed := h.fed
    simp only [sleep, Nat.mul_succ]
    omega
  held := h.held
  quiet := h.quiet
  below := .inl hlt

/-- A poll that notices an upload. -/
theorem Sampled.polled (h : Sampled w) :
    Polled T 0 { w with quietMs := 0, noticed := true } where
  toSampled := ⟨h.fed, h.held⟩
  quiet := rfl
  quiet_le := Nat.zero_le _
  expired hT := by
    have hT' : T.toNat ≤ 0 := hT
    rw [limitMs, if_pos rfl, Nat.le_zero.mp hT']
    rfl

/-- A poll that notices none. -/
theorem AtRound.polled (h : AtRound T uploadingTimeoutCnt w) {w' : Clock} (hsampled : Sampled w')
    (hquiet : w'.quietMs = w.quietMs) (hnoticed : w'.noticed = w.noticed) :
    Polled T (uploadingTimeoutCnt + 1) w' where
  toSampled := hsampled
  quiet := by
    rw [hquiet, hnoticed, h.quiet, h.toNat_add_one, Nat.add_right_comm, Nat.mul_succ]
  quiet_le := by
    rw [hquiet, limitMs, hnoticed]
    exact h.quiet_le
  expired hT := by
    have hT' : T.toNat ≤ uploadingTimeoutCnt.toNat + 1 := by
      rw [← h.toNat_add_one]
      exact hT
    rw [hquiet, h.quiet, limitMs, hnoticed]
    congr 1
    rcases h.below with hlt | ⟨hfalse, rfl⟩
    · have hlt' : uploadingTimeoutCnt.toNat < T.toNat := hlt
      split <;> omega
    · have hzero : (0 : UInt32).toNat = 0 := rfl
      rw [hfalse, hzero]
      rw [hzero] at hT'
      simp only [Bool.false_eq_true, if_false]
      omega

end Clock

/-! ## The parts of a round -/

/-- Nothing is counted of a call. -/
def Uncounted (c : MainCall) : Prop := ∀ (w : Clock) r, w.next ⟨c, r⟩ = w

theorem uncounted_of_isDriver {c : MainCall} (hc : c.isDriver = true) : Uncounted c := by
  intro w r
  cases c with
  | kSleep ms => exact nomatch hc
  | watchdogFeed => exact nomatch hc
  | buttonIsPressed => exact nomatch hc
  | isUploadingInProgress => exact nomatch hc
  | _ => rfl

theorem step_of_uncounted {c : MainCall} (hc : Uncounted c) (hok : Clock.Ok T w) (r) :
    (clocked T).step w ⟨c, r⟩ = some w := by
  have hnext : w.next ⟨c, r⟩ = w := hc w r
  have h : Clock.Ok T (w.next ⟨c, r⟩) := by rwa [hnext]
  rw [Protocol.step_watch h, hnext]

/-- The drivers leave the clock as it is. -/
theorem clocked_of_onlyDrivers {α : Type} {p : Prog mainApi α} (hp : OnlyDrivers p)
    (hok : Clock.Ok T w) : Prog.Follows (clocked T) (fun _ w' => w' = w) w p :=
  Prog.Follows.of_onlyCalls (hp.mono fun _ hc => step_of_uncounted (uncounted_of_isDriver hc) hok)

theorem kSleep_clocked {ms : ℕ} (hok : Clock.Ok T (w.sleep ms)) :
    Prog.Follows (clocked T) (fun _ w' => w' = w.sleep ms) w (kSleep ms) :=
  fun _ => ⟨w.sleep ms, Protocol.step_watch hok, rfl⟩

/-- The blink takes its interval, whether the controller is ready or not. -/
theorem blinkRgbLed_clocked (h : Clock.Polled T uploadingTimeoutCnt w)
    (hlt : uploadingTimeoutCnt < T) :
    Prog.Follows (clocked T) (fun _ w' => w' = w.sleep blinkIntervalMs) w blinkRgbLed := by
  have hok : Clock.Ok T w := h.ok h.quiet_le
  have hon : Clock.Ok T (w.sleep blinkDurationMs) := h.ok_sleep hlt (by decide)
  have hoff : Clock.Ok T (w.sleep blinkIntervalMs) := h.ok_sleep hlt (Nat.le_refl _)
  have hsum : (w.sleep blinkDurationMs).sleep (blinkIntervalMs - blinkDurationMs) =
      w.sleep blinkIntervalMs := Clock.sleep_sleep w _ _
  refine Prog.Follows.perform_bind fun ready => ?_
  refine ⟨w, step_of_uncounted (fun _ _ => rfl) hok ready, ?_⟩
  refine Prog.Follows.ite (fun _ => ?_) fun _ => kSleep_clocked hoff
  refine Prog.Follows.bind_eq
    (clocked_of_onlyDrivers fwloaderRgbLedCheckAndReinitIfNeeded_onlyDrivers hok) fun _ => ?_
  refine Prog.Follows.bind_eq
    (clocked_of_onlyDrivers (fwloaderRgbLedSetRawCurrentsAndPwms_onlyDrivers _ _) hok) fun _ => ?_
  refine Prog.Follows.bind_eq (kSleep_clocked hon) fun _ => ?_
  refine Prog.Follows.bind_eq
    (clocked_of_onlyDrivers (fwloaderRgbLedSetRawCurrentsAndPwms_onlyDrivers _ _) hon) fun _ => ?_
  rw [← hsum] at hoff ⊢
  exact kSleep_clocked hoff

/-- The sample of the button, and the watchdog if it is released. -/
theorem feedUnlessPressed_clocked (h : Clock.AtRound T uploadingTimeoutCnt w) :
    Prog.Follows (clocked T) (fun _ w' => Clock.Sampled w' ∧ w'.ms = w.ms ∧
      w'.quietMs = w.quietMs ∧ w'.noticed = w.noticed) w feedUnlessPressed := by
  refine Prog.Follows.perform_bind fun pressed => ?_
  cases pressed with
  | true =>
    have hsampled : Clock.Sampled { w with pressed := w.pressed + 1 } :=
      ⟨h.fed, Nat.add_le_add_right h.held _⟩
    refine ⟨{ w with pressed := w.pressed + 1 }, ?_, hsampled, rfl, rfl, rfl⟩
    exact Protocol.step_watch (hsampled.ok h.quiet_le)
  | false =>
    have hfed : Clock.Sampled { w with sinceFed := 0, pressed := 0 } :=
      ⟨Nat.zero_le _, Nat.zero_le _⟩
    refine ⟨w, Protocol.step_watch h.ok, fun _ => ?_⟩
    refine ⟨{ w with sinceFed := 0, pressed := 0 }, ?_, hfed, rfl, rfl, rfl⟩
    exact Protocol.step_watch (hfed.ok h.quiet_le)

theorem pollUploads_clocked (h : Clock.AtRound T uploadingTimeoutCnt w) {w' : Clock}
    (hsampled : Clock.Sampled w') (hms : w'.ms = w.ms) (hquiet : w'.quietMs = w.quietMs)
    (hnoticed : w'.noticed = w.noticed) :
    Prog.Follows (clocked T) (fun cnt w'' => Clock.Polled T cnt w'' ∧ w''.ms = w.ms) w'
      (pollUploads uploadingTimeoutCnt) := by
  have hidle : Clock.Polled T (uploadingTimeoutCnt + 1) w' := h.polled hsampled hquiet hnoticed
  have hok : Clock.Ok T w' := hidle.ok hidle.quiet_le
  refine Prog.Follows.perform_bind fun isConnected => ?_
  refine ⟨w', step_of_uncounted (fun _ _ => rfl) hok isConnected, ?_⟩
  refine Prog.Follows.ite (fun _ => ?_) fun _ => ⟨hidle, hms⟩
  refine Prog.Follows.perform_bind fun isUploading => ?_
  cases isUploading with
  | true =>
    have hnow : Clock.Polled T 0 { w' with quietMs := 0, noticed := true } := hsampled.polled
    exact ⟨_, Protocol.step_watch (hnow.ok hnow.quiet_le), hnow, hms⟩
  | false => exact ⟨w', Protocol.step_watch hok, hidle, hms⟩

/-- What holds where the loop is left. -/
structure Clock.Left (T : UInt32) (reason : RebootReason) (w : Clock) : Prop where
  fed : w.sinceFed ≤ blinkIntervalMs * (w.pressed + 1)
  held : blinkIntervalMs * w.pressed ≤ w.sinceFed + blinkIntervalMs
  quiet_le : w.quietMs ≤ w.limitMs T
  expired : reason = .timeout → w.quietMs = w.limitMs T

/-- A round takes a second, or it leaves the loop. -/
theorem mainLoopRound_clocked {i : ℕ}
    (h : Clock.AtRound T uploadingTimeoutCnt w ∧ w.ms = blinkIntervalMs * i) :
    Prog.Follows (clocked T) (fun res w' => Sum.elim
      (fun cnt => Clock.AtRound T cnt w' ∧ w'.ms = blinkIntervalMs * (i + 1))
      (fun reason => Clock.Left T reason w') res) w (mainLoopRound T uploadingTimeoutCnt) := by
  obtain ⟨hround, hms⟩ := h
  refine Prog.Follows.perform_bind fun requested => ?_
  refine ⟨w, step_of_uncounted (fun _ _ => rfl) hround.ok requested, ?_⟩
  refine Prog.Follows.ite (fun _ => ?_) fun _ => ?_
  · exact ⟨hround.fed, Nat.le_add_right_of_le hround.held, hround.quiet_le, nofun⟩
  refine (feedUnlessPressed_clocked hround).bind ?_
  rintro - w₁ ⟨hsampled, hms₁, hquiet, hnoticed⟩
  refine (pollUploads_clocked hround hsampled hms₁ hquiet hnoticed).bind ?_
  rintro cnt w₂ ⟨hpolled, hms₂⟩
  refine Prog.Follows.ite (fun hexpired => ?_) fun hrunning => ?_
  · exact ⟨Nat.le_trans hpolled.fed (Nat.mul_le_mul_left _ (Nat.le_succ _)), hpolled.held,
      hpolled.quiet_le, fun _ => hpolled.expired hexpired⟩
  have hlt : cnt < T := UInt32.not_le.mp hrunning
  refine Prog.Follows.bind_eq (blinkRgbLed_clocked hpolled hlt) fun _ => ?_
  refine ⟨hpolled.atRound hlt, ?_⟩
  show w₂.ms + blinkIntervalMs = _
  rw [hms₂, hms, Nat.mul_succ]

/-! ## The reboot -/

theorem Clock.Left.ok_sleep {reason : RebootReason} (h : Clock.Left T reason w) {ms : ℕ}
    (hms : ms ≤ Clock.rebootMs) : Clock.Ok T (w.sleep ms) where
  fed := Nat.add_le_add h.fed hms
  held := by
    have hheld := h.held
    simp only [Clock.sleep]
    omega
  quiet := Nat.add_le_add h.quiet_le hms

theorem rebootFromMainThread_clocked {reason : RebootReason} (h : Clock.Left T reason w)
    (fw : RuuviFw) (gFsDirEntry : FsDirEntryType) :
    Prog.Follows (clocked T) (fun _ w' => w' = w.sleep Clock.rebootMs) w
      (rebootFromMainThread fw gFsDirEntry) := by
  have hok : Clock.Ok T w := h.ok_sleep (Nat.zero_le _)
  have hend : Clock.Ok T (w.sleep Clock.rebootMs) := h.ok_sleep (Nat.le_refl _)
  refine Prog.Follows.bind_eq (clocked_of_onlyDrivers turnOffRgbLed_onlyDrivers hok) fun _ => ?_
  refine Prog.Follows.bind_eq
    (clocked_of_onlyDrivers (flagUpdatesAvailable_onlyDrivers fw gFsDirEntry) hok) fun flag => ?_
  refine Prog.Follows.bind_eq
    (clocked_of_onlyDrivers (announceUpdates_onlyDrivers flag) hok) fun _ => ?_
  refine Prog.Follows.bind_eq (kSleep_clocked hend) fun _ => ?_
  exact fun r => ⟨_, step_of_uncounted (fun _ _ => rfl) hend r, rfl⟩

end

/-- What holds when main has come to an end: it is in the loop, or it has rebooted the device. -/
def AtEnd (T : UInt32) (n : ℕ) (res : Option RebootReason) (w : Clock) : Prop :=
  res.elim (∃ cnt, Clock.AtRound T cnt w ∧ w.ms = blinkIntervalMs * n) fun reason =>
    ∃ w₀, Clock.Left T reason w₀ ∧ w = w₀.sleep Clock.rebootMs

/-- The bounds hold at every call of main. -/
theorem mainFromLoop_clocked (T : UInt32) (fw : RuuviFw) (gFsDirEntry : FsDirEntryType) (n : ℕ) :
    Prog.Follows (clocked T) (AtEnd T n) .start (mainFromLoop T fw gFsDirEntry n) := by
  have hloop : Prog.Follows (clocked T) (fun res w => res.elim
      (∃ cnt, Clock.AtRound T cnt w ∧ w.ms = blinkIntervalMs * (0 + n)) (Clock.Left T · w)) .start
      (Prog.loop (mainLoopRound T) n 0) :=
    Prog.Follows.loop_count (I := fun i cnt w => Clock.AtRound T cnt w ∧ w.ms = blinkIntervalMs * i)
      (X := Clock.Left T) (fun _ _ _ => mainLoopRound_clocked) n ⟨Clock.atRound_start T, rfl⟩
  refine hloop.bind fun reason w hw => ?_
  cases reason with
  | none =>
    rw [Nat.zero_add] at hw
    exact hw
  | some reason =>
    refine Prog.Follows.bind_eq (rebootFromMainThread_clocked hw fw gFsDirEntry) fun _ => ?_
    exact ⟨w, hw, rfl⟩

/-! ## When the watchdog is fed -/

/-- The watchdog may be fed if the last call has found the button released. -/
def feeding : Protocol mainApi Bool where
  step
    | released, ⟨.watchdogFeed, _⟩ => if released = true then some false else none
    | _, ⟨.buttonIsPressed, pressed⟩ => some (!pressed)
    | _, _ => some false

/-- The last call has been a sample at which the button was released. -/
theorem exists_sample_of_exec_feeding {es : List (Event mainApi)}
    (h : feeding.exec false es = some true) : ∃ es', es = es' ++ [⟨.buttonIsPressed, false⟩] := by
  obtain rfl | ⟨es', e, rfl⟩ := List.eq_nil_or_concat es
  · exact nomatch h
  · rw [List.concat_eq_append] at h ⊢
    obtain ⟨released, _, -, hstep, hend⟩ := Protocol.exists_step_of_exec h
    obtain rfl := Option.some.inj hend
    obtain ⟨c, r⟩ := e
    cases c with
    | buttonIsPressed =>
      cases r with
      | false => exact ⟨es', rfl⟩
      | true => exact nomatch hstep
    | watchdogFeed =>
      obtain ⟨-, hfalse⟩ := Option.ite_none_right_eq_some.mp hstep
      exact nomatch hfalse
    | _ => exact nomatch hstep

/-- A call that neither samples the button nor feeds the watchdog. -/
def Unfed (c : MainCall) : Prop := c ≠ .watchdogFeed ∧ c ≠ .buttonIsPressed

theorem feeding_of_unfed {α : Type} {p : Prog mainApi α} (hp : p.OnlyCalls Unfed) :
    Prog.Follows feeding (fun _ q => q = false) false p := by
  refine Prog.Follows.of_onlyCalls (hp.mono fun c hc r => ?_)
  obtain ⟨hfeed, hsample⟩ := hc
  cases c with
  | watchdogFeed => exact absurd rfl hfeed
  | buttonIsPressed => exact absurd rfl hsample
  | _ => rfl

theorem unfed_of_onlyDrivers {α : Type} {p : Prog mainApi α} (hp : OnlyDrivers p) :
    p.OnlyCalls Unfed := by
  refine hp.mono fun c hc => ⟨?_, ?_⟩ <;> rintro rfl <;> exact nomatch hc

theorem kSleep_unfed (ms : ℕ) : (kSleep ms).OnlyCalls Unfed := ⟨⟨nofun, nofun⟩, fun _ => trivial⟩

theorem pollUploads_unfed (uploadingTimeoutCnt : UInt32) :
    (pollUploads uploadingTimeoutCnt).OnlyCalls Unfed := by
  refine Prog.onlyCalls_perform_bind ⟨nofun, nofun⟩ fun _ => ?_
  refine Prog.onlyCalls_ite (fun _ => ?_) fun _ => trivial
  refine Prog.onlyCalls_perform_bind ⟨nofun, nofun⟩ fun _ => ?_
  exact Prog.onlyCalls_ite (fun _ => trivial) fun _ => trivial

theorem blinkRgbLed_unfed : blinkRgbLed.OnlyCalls Unfed := by
  have hset (pwms : RgbLedPwms) :=
    unfed_of_onlyDrivers (fwloaderRgbLedSetRawCurrentsAndPwms_onlyDrivers rgbLedCurrents pwms)
  refine Prog.onlyCalls_perform_bind ⟨nofun, nofun⟩ fun _ => ?_
  refine Prog.onlyCalls_ite (fun _ => ?_) fun _ => kSleep_unfed _
  refine (unfed_of_onlyDrivers fwloaderRgbLedCheckAndReinitIfNeeded_onlyDrivers).bind fun _ => ?_
  refine (hset _).bind fun _ => (kSleep_unfed _).bind fun _ => ?_
  exact (hset _).bind fun _ => kSleep_unfed _

theorem feedUnlessPressed_feeding :
    Prog.Follows feeding (fun _ q => q = false) false feedUnlessPressed := by
  refine Prog.Follows.perform_bind fun pressed => ?_
  cases pressed with
  | true => exact ⟨false, rfl, rfl⟩
  | false => exact ⟨true, rfl, fun _ => ⟨false, rfl, rfl⟩⟩

theorem mainLoopRound_feeding (T uploadingTimeoutCnt : UInt32) :
    Prog.Follows feeding (fun _ q => q = false) false (mainLoopRound T uploadingTimeoutCnt) := by
  refine Prog.Follows.perform_bind fun requested => ⟨false, rfl, ?_⟩
  refine Prog.Follows.ite (fun _ => rfl) fun _ => ?_
  refine Prog.Follows.bind_eq feedUnlessPressed_feeding fun _ => ?_
  refine Prog.Follows.bind_eq (feeding_of_unfed (pollUploads_unfed _)) fun cnt => ?_
  refine Prog.Follows.ite (fun _ => rfl) fun _ => ?_
  exact Prog.Follows.bind_eq (feeding_of_unfed blinkRgbLed_unfed) fun _ => rfl

theorem rebootFromMainThread_unfed (fw : RuuviFw) (gFsDirEntry : FsDirEntryType) :
    (rebootFromMainThread fw gFsDirEntry).OnlyCalls Unfed := by
  refine (unfed_of_onlyDrivers turnOffRgbLed_onlyDrivers).bind fun _ => ?_
  refine (unfed_of_onlyDrivers (flagUpdatesAvailable_onlyDrivers fw gFsDirEntry)).bind fun _ => ?_
  refine (unfed_of_onlyDrivers (announceUpdates_onlyDrivers _)).bind fun _ => ?_
  exact (kSleep_unfed _).bind fun _ => ⟨⟨nofun, nofun⟩, fun _ => trivial⟩

theorem mainFromLoop_feeding (T : UInt32) (fw : RuuviFw) (gFsDirEntry : FsDirEntryType) (n : ℕ) :
    Prog.Follows feeding (fun _ q => q = false) false (mainFromLoop T fw gFsDirEntry n) := by
  refine Prog.Follows.bind_eq (Prog.Follows.loop_eq (mainLoopRound_feeding T) n 0) fun reason => ?_
  cases reason with
  | none => rfl
  | some reason =>
    exact Prog.Follows.bind_eq
      (feeding_of_unfed (rebootFromMainThread_unfed fw gFsDirEntry)) fun _ => rfl

section

variable {σ : Type} (H : Handler mainApi σ) (s : σ) (T : UInt32) (fw : RuuviFw)
  (gFsDirEntry : FsDirEntryType) (n : ℕ)

theorem run_mainFromLoop_clocked :
    (∀ es, es <+: (mainFromLoop T fw gFsDirEntry n).trace H s → Clock.Ok T (Clock.after es)) ∧
      AtEnd T n ((mainFromLoop T fw gFsDirEntry n).run H s).1
        (Clock.after ((mainFromLoop T fw gFsDirEntry n).trace H s)) := by
  obtain ⟨w, hexec, hend⟩ := (mainFromLoop_clocked T fw gFsDirEntry n).run H s
  obtain ⟨rfl, hok⟩ := Protocol.ok_of_exec_watch (Clock.atRound_start T).ok hexec
  exact ⟨hok, hend⟩

/-- In every environment and at every call of main, the time since the watchdog was fed is that of
the samples at which the button has been pressed since then, give or take a round of the loop. It is
fed only right behind a sample at which the button was released. -/
theorem sinceFed_bounds :
    (∀ es, es <+: (mainFromLoop T fw gFsDirEntry n).trace H s →
      (Clock.after es).sinceFed ≤ 1000 * ((Clock.after es).pressed + 1) + 25 ∧
        1000 * (Clock.after es).pressed ≤ (Clock.after es).sinceFed + 1000) ∧
    ∀ es, es ++ [⟨.watchdogFeed, ()⟩] <+: (mainFromLoop T fw gFsDirEntry n).trace H s →
      ∃ es', es = es' ++ [⟨.buttonIsPressed, false⟩] := by
  refine ⟨fun es hes => ?_, fun es hes => ?_⟩
  · have hok := (run_mainFromLoop_clocked H s T fw gFsDirEntry n).1 es hes
    exact ⟨hok.fed, hok.held⟩
  · obtain ⟨rest, hrest⟩ := hes
    obtain ⟨q, hexec, -⟩ := (mainFromLoop_feeding T fw gFsDirEntry n).run H s
    rw [← hrest, List.append_assoc] at hexec
    obtain ⟨released, _, hes, hfeed, -⟩ := Protocol.exists_step_of_exec hexec
    obtain ⟨rfl, -⟩ := Option.ite_none_right_eq_some.mp hfeed
    exact exists_sample_of_exec_feeding hes

/-- The button is held for three rounds; when it is released, the third call feeds the watchdog. -/
theorem sinceFed_bounds_sample :
    (let O : Oracle mainApi := Function.update sampleAnswers .buttonIsPressed true
      let w := Clock.after ((mainFromLoop 180 sampleFw .dir 3).trace (Prog.handler O) ())
      w.pressed = 3 ∧ w.sinceFed ≤ 4025 ∧ 3000 ≤ w.sinceFed + 1000) ∧
    ∃ es', [⟨.flagRebootRequested, false⟩, ⟨.buttonIsPressed, false⟩] =
      es' ++ [(⟨.buttonIsPressed, false⟩ : Event mainApi)] := by
  refine ⟨?_, ?_⟩
  · intro O w
    have hpressed : w.pressed = 3 := by decide
    obtain ⟨hbounds, -⟩ := sinceFed_bounds (Prog.handler O) () 180 sampleFw .dir 3
    have hend := hbounds _ List.prefix_rfl
    rw [show (Clock.after _).pressed = 3 from hpressed] at hend
    exact ⟨hpressed, hend⟩
  · obtain ⟨-, hfed⟩ := sinceFed_bounds (Prog.handler sampleAnswers) () 180 sampleFw .dir 1
    exact hfed [⟨.flagRebootRequested, false⟩, ⟨.buttonIsPressed, false⟩] ⟨_, rfl⟩

/-- In every environment main does not wait longer than its time-out for an upload, it is the
time-out that it has waited if it reboots the device for that, and `n` rounds without a reboot take
`n` seconds. -/
theorem quietMs_limit :
    (∀ es, es <+: (mainFromLoop T fw gFsDirEntry n).trace H s →
      (Clock.after es).quietMs ≤ (Clock.after es).limitMs T + 25) ∧
    (((mainFromLoop T fw gFsDirEntry n).run H s).1 = some .timeout →
      (Clock.after ((mainFromLoop T fw gFsDirEntry n).trace H s)).quietMs =
        (Clock.after ((mainFromLoop T fw gFsDirEntry n).trace H s)).limitMs T + 25) ∧
    (((mainFromLoop T fw gFsDirEntry n).run H s).1 = none →
      (Clock.after ((mainFromLoop T fw gFsDirEntry n).trace H s)).ms = 1000 * n) := by
  obtain ⟨hok, hend⟩ := run_mainFromLoop_clocked H s T fw gFsDirEntry n
  refine ⟨fun es hes => (hok es hes).quiet, fun hres => ?_, fun hres => ?_⟩
  · rw [hres] at hend
    obtain ⟨w₀, hleft, hw⟩ := hend
    rw [hw]
    show w₀.quietMs + Clock.rebootMs = w₀.limitMs T + 25
    rw [hleft.expired rfl]
    rfl
  · rw [hres] at hend
    obtain ⟨cnt, -, hms⟩ := hend
    exact hms

end

end FwLoader.Main
