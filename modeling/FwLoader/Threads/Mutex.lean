import FwLoader.Threads.Fairness

/-!
# The mutex of the LEDs

A thread that has the mutex is never held up and gives it back within four calls of its own. So in
every fair run each thread that waits for the mutex gets it, although the threads wait with
`K_FOREVER`.
-/

namespace FwLoader.Threads

open Foundations System

/-- How many calls main still makes with the mutex. -/
def MainPc.heldFor : MainPc → ℕ
  | .isPressed => 3
  | .redOn => 2
  | .ledUnlock => 1
  | _ => 0

/-- How many calls a Bluetooth callback still makes with the mutex. -/
def BtPc.heldFor : BtPc → ℕ
  | .isPressed _ => 4
  | .ledOff _ => 3
  | .ledOn _ => 2
  | .ledUnlock _ => 1
  | _ => 0

/-- How many calls a handler still makes with the mutex. -/
def WorkqPc.heldFor : WorkqPc → ℕ
  | .pressedSet => 4
  | .pressedGreenOn | .offGreen _ => 3
  | .pressedRedOn | .offRed _ => 2
  | .pressedUnlock | .offUnlock _ => 1
  | _ => 0

namespace Device

/-- How many calls a thread still makes with the mutex. -/
def heldFor (d : Device) : Thread → ℕ
  | .main => d.main.heldFor
  | .bt => d.bt.heldFor
  | .workq => d.workq.heldFor
  | .isr => 0

theorem SamePlace.heldFor {d d' : Device} {t : Thread} (h : d.SamePlace d' t) :
    d'.heldFor t = d.heldFor t := by
  cases t with
  | main => exact congrArg MainPc.heldFor h
  | bt => exact congrArg BtPc.heldFor h
  | workq => exact congrArg WorkqPc.heldFor h
  | isr => rfl

end Device

section

variable {d d' : Device} {e : Event} {t : Thread} {k : Call}

/-- What the call of a thread does to the mutex. -/
theorem mutex_of_isCall (hk : d.call t = some k) (he : e.IsCall t)
    (hstep : device.step d e = some d') :
    d'.gFwloaderLedMutex = (d.effect t k).gFwloaderLedMutex := by
  cases t with
  | main =>
    cases e with
    | main expired =>
      obtain ⟨k', hk', -, rfl⟩ := mainStep_eq_some hstep
      obtain rfl := Option.some.inj (hk.symm.trans hk')
      rfl
    | _ => exact absurd he id
  | bt =>
    cases e with
    | bt =>
      obtain ⟨k', hk', -, rfl⟩ := btStep_eq_some hstep
      obtain rfl := Option.some.inj (hk.symm.trans hk')
      rfl
    | _ => exact absurd he id
  | workq =>
    cases e with
    | workq =>
      obtain ⟨w, work, hidle, -, rfl⟩ | ⟨k', hk', -, rfl⟩ := workqStep_cases hstep
      · have hk' : d.workq.call = some k := hk
        exact nomatch hidle ▸ hk'
      · obtain rfl := Option.some.inj (hk.symm.trans hk')
        rfl
    | _ => exact absurd he id
  | isr => exact nomatch hk

/-! ## The section of the owner -/

/-- From the lock on, each call is the unlock or comes nearer to it. -/
theorem MainPc.heldFor_next {pc : MainPc} (hmutex : pc.HasMutex) (hk : pc.call = some k)
    (d : Device) (expired : Bool) : k = .ledUnlock ∨ (pc.next d expired).heldFor < pc.heldFor := by
  rcases hmutex with rfl | rfl | rfl
  · refine .inr ?_
    rw [next]
    split <;> decide
  · exact .inr (by rw [next]; decide)
  · exact .inl (Option.some.inj hk).symm

theorem BtPc.heldFor_next {pc : BtPc} (hmutex : pc.HasMutex) (hk : pc.call = some k)
    (d : Device) : k = .ledUnlock ∨ (pc.next d).heldFor < pc.heldFor := by
  cases pc with
  | isPressed b =>
    refine .inr ?_
    rw [next]
    split <;> simp [heldFor]
  | ledOff b | ledOn b => exact .inr (by simp [next, heldFor])
  | ledUnlock b => exact .inl (Option.some.inj hk).symm
  | _ => exact absurd hmutex id

theorem WorkqPc.heldFor_next {pc : WorkqPc} (hmutex : pc.HasMutex) (hk : pc.call = some k) :
    k = .ledUnlock ∨ pc.next.heldFor < pc.heldFor := by
  cases pc with
  | pressedSet | pressedGreenOn | pressedRedOn | offGreen w | offRed w =>
    exact .inr (by simp [next, heldFor])
  | pressedUnlock | offUnlock w => exact .inl (Option.some.inj hk).symm
  | _ => exact absurd hmutex id

/-- The owner unlocks the mutex or still has it. -/
theorem mutex_effect_of_owner (howner : d.gFwloaderLedMutex = some t) :
    (d.effect t k).gFwloaderLedMutex = none ∧ k = .ledUnlock ∨
      (d.effect t k).gFwloaderLedMutex = some t ∧ k ≠ .ledUnlock := by
  by_cases hk : k = .ledUnlock
  · exact .inl ⟨by rw [hk]; rfl, hk⟩
  · refine .inr ⟨effect_mutex.mpr ?_, hk⟩
    by_cases hlock : k = .ledLock
    · exact .inl ⟨hlock, rfl⟩
    · exact .inr ⟨hlock, hk, howner⟩

/-- With the mutex, a call of the owner unlocks it or comes nearer to the unlock. -/
theorem heldFor_lt (hlocal : ∀ t, Local t d) (howner : d.gFwloaderLedMutex = some t)
    (he : e.IsCall t) (hstep : device.step d e = some d') :
    d'.gFwloaderLedMutex = none ∨
      d'.gFwloaderLedMutex = some t ∧ d'.heldFor t < d.heldFor t := by
  cases t with
  | main =>
    have hmain : MainLocal d := hlocal .main
    cases e with
    | main expired =>
      obtain ⟨k, hk, -, rfl⟩ := mainStep_eq_some hstep
      have hnext := MainPc.heldFor_next (hmain.mutex.mp howner) hk d expired
      exact (mutex_effect_of_owner howner).imp (·.1) fun h => ⟨h.1, hnext.resolve_left h.2⟩
    | _ => exact absurd he id
  | bt =>
    have hbt : BtLocal d := hlocal .bt
    cases e with
    | bt =>
      obtain ⟨k, hk, -, rfl⟩ := btStep_eq_some hstep
      have hnext := BtPc.heldFor_next (hbt.mutex.mp howner) hk d
      exact (mutex_effect_of_owner howner).imp (·.1) fun h => ⟨h.1, hnext.resolve_left h.2⟩
    | _ => exact absurd he id
  | workq =>
    have hworkq : WorkqLocal d := hlocal .workq
    cases e with
    | workq =>
      obtain ⟨w, work, hidle, -, rfl⟩ | ⟨k, hk, -, rfl⟩ := workqStep_cases hstep
      · have hmutex := hworkq.mutex.mp howner
        rw [hidle] at hmutex
        exact absurd hmutex id
      · have hnext := WorkqPc.heldFor_next (hworkq.mutex.mp howner) hk
        exact (mutex_effect_of_owner howner).imp (·.1) fun h => ⟨h.1, hnext.resolve_left h.2⟩
    | _ => exact absurd he id
  | isr => cases e <;> exact absurd he id

/-- The owner is one of the threads and is at a call that need not wait. -/
theorem exists_call_of_owner (hlocal : ∀ t, Local t d) (howner : d.gFwloaderLedMutex = some t)
    (ht : t ≠ .isr) : ∃ k, d.call t = some k ∧ d.CanCall k := by
  cases t with
  | main =>
    have hmain : MainLocal d := hlocal .main
    rcases hmain.mutex.mp howner with hpc | hpc | hpc <;>
      exact ⟨_, congrArg MainPc.call hpc, nofun⟩
  | bt =>
    have hbt : BtLocal d := hlocal .bt
    have hmutex := hbt.mutex.mp howner
    cases hpc : d.bt with
    | isPressed b | ledOff b | ledOn b | ledUnlock b =>
      exact ⟨_, congrArg BtPc.call hpc, nofun⟩
    | _ =>
      rw [hpc] at hmutex
      exact absurd hmutex id
  | workq =>
    have hworkq : WorkqLocal d := hlocal .workq
    have hmutex := hworkq.mutex.mp howner
    cases hpc : d.workq with
    | pressedSet | pressedGreenOn | pressedRedOn | pressedUnlock | offGreen w | offRed w
    | offUnlock w => exact ⟨_, congrArg WorkqPc.call hpc, nofun⟩
    | _ =>
      rw [hpc] at hmutex
      exact absurd hmutex id
  | isr => exact absurd rfl ht

/-- Interrupts do not take the mutex. -/
theorem owner_ne_isr (h : device.Reach Any d) : d.gFwloaderLedMutex ≠ some .isr := by
  refine h.invariant_of_reach (I := fun d => d.gFwloaderLedMutex ≠ some .isr) nofun
    fun d e d' hreach howner _ hstep hisr => ?_
  by_cases ht : e.thread = .isr
  · obtain ⟨work, rfl⟩ := device_step_isr ht hstep
    exact howner hisr
  · have hframe := (device_step (local_of_reach hreach) hstep).2
    exact howner ((hframe.mutex.other (Ne.symm ht)).mp hisr)

end

/-! ## Fair runs -/

section

variable {r : device.EndlessRun}

/-- The mutex is given back. -/
theorem mutex_approach {t : Thread} :
    Approach device (Event.IsCall t) (fun d => d.gFwloaderLedMutex = some t)
      (fun d => d.gFwloaderLedMutex = none) (fun d => d.heldFor t) where
  stays d e d' hreach howner hstep := by
    have hlocal := local_of_reach hreach
    by_cases he : e.IsCall t
    · exact (heldFor_lt hlocal howner he hstep).imp_right fun h => ⟨h.1, h.2.le⟩
    · have ht : t ≠ .isr := by
        rintro rfl
        exact owner_ne_isr hreach howner
      obtain ⟨k, hk, -⟩ := exists_call_of_owner hlocal howner ht
      obtain ⟨hplace, hmutex⟩ := samePlace_of_not_isCall hlocal hk he hstep
      exact .inr ⟨hmutex.mpr howner, hplace.heldFor.le⟩
  nears d e d' hreach howner he hstep := heldFor_lt (local_of_reach hreach) howner he hstep

theorem leadsTo_mutex_free (hfair : FairDevice r) :
    r.LeadsTo (fun _ => True) fun d => d.gFwloaderLedMutex = none := by
  intro n _
  cases howner : (r.state n).gFwloaderLedMutex with
  | none => exact ⟨n, Nat.le_refl n, howner⟩
  | some t =>
    refine r.leadsTo_of_approach (hfair.call t) mutex_approach (.of_imp fun d hreach howner => ?_) n
      howner
    have ht : t ≠ .isr := by
      rintro rfl
      exact owner_ne_isr hreach howner
    obtain ⟨k, hk, hcan⟩ := exists_call_of_owner (local_of_reach hreach) howner ht
    exact .inr (can_of_call hk hcan)

/-- A thread that is to make a call can make it sooner or later, even if it has to wait for the
mutex. -/
theorem leadsTo_can (hfair : FairDevice r) {t : Thread} {P Q : Device → Prop}
    (hstays : ∀ d e d', device.Reach Any d → P d → device.step d e = some d' → Q d' ∨ P d')
    (hcall : ∀ d, device.Reach Any d → P d → ∃ k, d.call t = some k) :
    r.LeadsTo P fun d => Q d ∨ device.Can (Event.IsCall t) d := by
  have hfree : r.LeadsTo P fun d => d.gFwloaderLedMutex = none :=
    (leadsTo_mutex_free hfair).mono (fun _ _ _ => trivial) fun _ _ h => h
  refine (hfree.and_of_stays hstays).mono (fun _ _ h => h) fun d hreach h => ?_
  refine h.imp_right fun ⟨hP, hnone⟩ => ?_
  obtain ⟨k, hk⟩ := hcall d hreach hP
  exact can_of_call hk fun _ => hnone

/-- In a fair run each thread that waits for the mutex gets it. -/
theorem leadsTo_owner (hfair : FairDevice r) (t : Thread) :
    r.LeadsTo (fun d => d.call t = some .ledLock) fun d => d.gFwloaderLedMutex = some t := by
  have hlock : ∀ d e d', device.Reach Any d → d.call t = some .ledLock → e.IsCall t →
      device.step d e = some d' → d'.gFwloaderLedMutex = some t := by
    intro d e d' _ hk he hstep
    rw [mutex_of_isCall hk he hstep]
    rfl
  have hstays : ∀ d e d', device.Reach Any d → d.call t = some .ledLock →
      device.step d e = some d' → d'.gFwloaderLedMutex = some t ∨ d'.call t = some .ledLock := by
    intro d e d' hreach hk hstep
    by_cases he : e.IsCall t
    · exact .inl (hlock d e d' hreach hk he hstep)
    · obtain ⟨hplace, -⟩ := samePlace_of_not_isCall (local_of_reach hreach) hk he hstep
      exact .inr (hplace.call.trans hk)
  refine r.leadsTo_of_approach (m := fun _ => 0) (hfair.call t) ⟨?_, ?_⟩
    (leadsTo_can hfair hstays fun _ _ hk => ⟨_, hk⟩)
  · exact fun d e d' hreach hk hstep =>
      (hstays d e d' hreach hk hstep).imp_right fun h => ⟨h, Nat.le_refl 0⟩
  · exact fun d e d' hreach hk he hstep => .inl (hlock d e d' hreach hk he hstep)

end

/-- Main waits for the mutex in its start-up section. -/
theorem leadsTo_owner_sample :
    ∃ r : device.EndlessRun, FairDevice r ∧ (r.state 13).call .main = some .ledLock ∧
      ∃ k, 13 ≤ k ∧ (r.state k).gFwloaderLedMutex = some .main := by
  obtain ⟨r, hfair, hevent⟩ :=
    exists_fairDevice (.replicate 17 (.main false) ++ pressAndRelease) (by decide)
  have hlock : (r.state 13).call .main = some .ledLock :=
    state_of_exec (P := fun d => d.call .main = some .ledLock) hevent (by decide)
  exact ⟨r, hfair, hlock, leadsTo_owner hfair .main 13 hlock⟩

end FwLoader.Threads
