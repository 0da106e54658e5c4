import FwLoader.Upload.Monitor

/-!
# The device does not stay in the loader idle

A stale difference of the two counters can start the time-out again long after the last command,
because it is only seen when a client is connected. `remaining` allows for this: it is the number of
polls to the reboot at most, and each poll without FS commands takes one from it, whatever connects
and disconnects. `resets` counts the polls that start the time-out again.
-/

namespace FwLoader.Upload

open Foundations System Mgmt

section

variable {ids : MgmtIds} {T : UInt32} {s s' : Monitor} {e : Event} {es : List Event}

/-! ## The polls to the reboot -/

/-- The polls to come if nothing has rebooted the device: those that the time-out still waits for,
and all of them once more if there is a difference to be noticed. -/
def pollsLeft (T : UInt32) (s : Monitor) : ℕ :=
  T.toNat - s.uploadingTimeoutCnt.toNat + if s.Pending then T.toNat else 0

/-- The number of polls to the reboot at most, if there are no FS commands. -/
def remaining (T : UInt32) (s : Monitor) : ℕ := if s.rebooted then 0 else pollsLeft T s

/-- A poll counts one, all other events count nothing. -/
def pollCost (e : Event) : ℕ := if e = .poll then 1 else 0

theorem sum_pollCost (es : List Event) : (es.map pollCost).sum = es.count .poll := by
  induction es with
  | nil => rfl
  | cons e es ih =>
    rw [List.map_cons, List.sum_cons, ih, List.count_cons, pollCost, Nat.add_comm]
    simp only [beq_iff_eq]

theorem remaining_of_running (hrunning : s.rebooted = false) : remaining T s = pollsLeft T s :=
  if_neg (by simp [hrunning])

theorem remaining_le (s : Monitor) : remaining T s ≤ 2 * T.toNat := by
  unfold remaining pollsLeft
  split
  · omega
  · split <;> omega

theorem remaining_pos (hwaiting : Waiting T s) (hrunning : s.rebooted = false) :
    0 < remaining T s := by
  have hlt : s.uploadingTimeoutCnt.toNat < T.toNat := hwaiting hrunning
  rw [remaining_of_running hrunning, pollsLeft]
  omega

private theorem remaining_mainLoopBody (hT : 1 ≤ T) (hwaiting : Waiting T s)
    (hrunning : s.rebooted = false) : remaining T (s.mainLoopBody T) + 1 ≤ remaining T s := by
  have hlt : s.uploadingTimeoutCnt.toNat < T.toNat := hwaiting hrunning
  have hsucc := hwaiting.toNat_add_one hrunning
  rw [remaining_of_running hrunning, Monitor.mainLoopBody_eq hT hrunning]
  by_cases hnoticed : s.Noticed
  · -- the time-out starts again, but the difference is gone and does not start it once more
    rw [if_pos hnoticed, remaining, if_neg (by simp [hrunning])]
    unfold pollsLeft
    rw [if_pos hnoticed.2, if_neg (fun h => h rfl)]
    show T.toNat - 0 + 0 + 1 ≤ _
    omega
  · rw [if_neg hnoticed, remaining]
    split
    · rw [pollsLeft]
      omega
    · show T.toNat - (s.uploadingTimeoutCnt + 1).toNat + (if s.Pending then T.toNat else 0) + 1 ≤
        pollsLeft T s
      rw [hsucc, pollsLeft]
      omega

/-- A poll takes one from the polls to the reboot, and no event without
an FS command adds to them. -/
theorem remaining_step (hT : 1 ≤ T) (hwaiting : Waiting T s) (hcmd : ¬IsFsCmd ids e)
    (hstep : (monitor ids T).step s e = some s') :
    remaining T s' + pollCost e ≤ remaining T s := by
  obtain ⟨hrunning, ⟨hcmd', -⟩ | ⟨rfl, rfl⟩ | ⟨-, hpoll, b, rfl⟩⟩ := monitor_step_cases hstep
  · exact absurd hcmd' hcmd
  · rw [pollCost, if_pos rfl]
    exact remaining_mainLoopBody hT hwaiting hrunning
  · rw [pollCost, if_neg hpoll]
    exact Nat.le_refl _

/-- A run without FS commands has at most as many polls as remain to the reboot. -/
theorem count_poll_le (hT : 1 ≤ T) (hwaiting : Waiting T s) (hcmds : ∀ e ∈ es, ¬IsFsCmd ids e)
    (hrun : (monitor ids T).Run Any s es s') :
    Waiting T s' ∧ remaining T s' + es.count .poll ≤ remaining T s := by
  have hquiet := hrun.of_forall_mem (D := fun _ e => ¬IsFsCmd ids e) fun e he _ => hcmds e he
  rw [← sum_pollCost]
  exact hquiet.cost_le (remaining T) pollCost
    (fun _ _ _ hwaiting hcmd hstep =>
      ⟨waiting_step hT hwaiting hstep, remaining_step hT hwaiting hcmd hstep⟩) hwaiting

/-! ## The time-out starts again at most once -/

/-- The number of polls that started the time-out again. -/
def noteResets (T : UInt32) (resets : ℕ) (s : Monitor) (e : Event) : ℕ :=
  if e = .poll ∧ (s.mainLoopBody T).uploadingTimeoutCnt = 0 then resets + 1 else resets

/-- One reset is left as long as there is a difference to be noticed. -/
def resetsLeft (s : Monitor) : ℕ := if s.Pending then 1 else 0

theorem noteResets_step (hT : 1 ≤ T) (hwaiting : Waiting T s) (hcmd : ¬IsFsCmd ids e)
    (hstep : (monitor ids T).step s e = some s') (resets : ℕ) :
    noteResets T resets s e + resetsLeft s' ≤ resets + resetsLeft s := by
  obtain ⟨hrunning, ⟨hcmd', -⟩ | ⟨rfl, rfl⟩ | ⟨-, hpoll, b, rfl⟩⟩ := monitor_step_cases hstep
  · exact absurd hcmd' hcmd
  · unfold noteResets
    rw [Monitor.mainLoopBody_eq hT hrunning]
    by_cases hnoticed : s.Noticed
    · rw [if_pos hnoticed, if_pos ⟨rfl, rfl⟩, resetsLeft, resetsLeft, if_pos hnoticed.2,
        if_neg (fun h => h rfl)]
    · have hsucc := hwaiting.toNat_add_one hrunning
      rw [if_neg hnoticed, if_neg]
      · exact Nat.le_refl _
      · rintro ⟨-, hzero⟩
        have hzero' := congrArg UInt32.toNat hzero
        rw [show _ = s.uploadingTimeoutCnt.toNat + 1 from hsucc] at hzero'
        exact nomatch hzero'
  · rw [noteResets, if_neg (fun h => hpoll h.1)]
    exact Nat.le_refl _

theorem resets_le_one (hT : 1 ≤ T) (hwaiting : Waiting T s) (hcmds : ∀ e ∈ es, ¬IsFsCmd ids e)
    {p : Monitor × ℕ}
    (hrun : ((monitor ids T).addGhost 0 (noteResets T)).Run Any (s, 0) es p) : p.2 ≤ 1 := by
  have hquiet := hrun.of_forall_mem (D := fun _ e => ¬IsFsCmd ids e) fun e he _ => hcmds e he
  have hleft : Waiting T p.1 ∧ p.2 + resetsLeft p.1 ≤ 1 := by
    refine hquiet.invariant (I := fun p => Waiting T p.1 ∧ p.2 + resetsLeft p.1 ≤ 1) ?_ ?_
    · rintro p e p' ⟨hwaiting, hle⟩ hcmd hstep
      obtain ⟨hmonitor, hnote⟩ := addGhost_step_eq_some.mp hstep
      refine ⟨waiting_step hT hwaiting hmonitor, ?_⟩
      rw [hnote]
      exact Nat.le_trans (noteResets_step hT hwaiting hcmd hmonitor _) hle
    · refine ⟨hwaiting, ?_⟩
      unfold resetsLeft
      split <;> omega
  omega

/-! ## The reboot of an idle device -/

/-- From every state reached, `2 * T` polls without an FS command between the first and the last of
them end with the reboot; without FS commands the time-out starts again at most once, and it is
below `T` as long as the device has not been rebooted. -/
theorem idle_reboots (hT : 1 ≤ T) (h : (monitor ids T).Reach Any s) :
    (∀ mid s', (∀ e ∈ mid, ¬IsFsCmd ids e) →
      (monitor ids T).Run Any s (.poll :: mid ++ [.poll]) s' →
      2 * T.toNat ≤ List.count .poll (Event.poll :: mid ++ [Event.poll]) → s'.rebooted = true) ∧
    (∀ es p, (∀ e ∈ es, ¬IsFsCmd ids e) →
      ((monitor ids T).addGhost 0 (noteResets T)).Run Any (s, 0) es p → p.2 ≤ 1) ∧
    (s.rebooted = false → s.uploadingTimeoutCnt < T) := by
  have hwaiting := waiting_of_reach hT h
  refine ⟨fun mid s' hmid hrun hpolls => ?_, fun es p hcmds hrun => ?_, hwaiting⟩
  · have hcmds : ∀ e ∈ Event.poll :: mid ++ [Event.poll], ¬IsFsCmd ids e := by
      simp only [List.forall_mem_append, List.forall_mem_cons]
      exact ⟨⟨id, hmid⟩, id, nofun⟩
    obtain ⟨hwaiting', hle⟩ := count_poll_le hT hwaiting hcmds hrun
    have hbound := remaining_le (T := T) s
    by_contra hrebooted
    have hpos := remaining_pos hwaiting' (Bool.not_eq_true _ ▸ hrebooted)
    omega
  · exact resets_le_one hT hwaiting hcmds hrun

end

/-- A command that is noticed late: the client that sent it is gone, and the link is up again just
before the time-out. -/
theorem idle_reboots_sample :
    ∃ s : Monitor, (monitor zephyrIds 2).Reach Any s ∧
      (monitor zephyrIds 2).Run Any s [.poll, .connected 0, .poll, .poll, .poll] ⟨1, 1, 2, true, true⟩ ∧
      Monitor.rebooted ⟨1, 1, 2, true, true⟩ = true :=
  have hreach : (monitor zephyrIds 2).Reach Any ⟨1, 0, 0, false, false⟩ :=
    reach_of_exec [.connected 0, .cmdRecv 1 (some ⟨8⟩) 4, .disconnected 0x13] (by decide)
  have hrun : (monitor zephyrIds 2).Run Any ⟨1, 0, 0, false, false⟩
      [.poll, .connected 0, .poll, .poll, .poll] ⟨1, 1, 2, true, true⟩ := run_of_exec (by decide)
  ⟨_, hreach, hrun,
    (idle_reboots (by decide) hreach).1 [.connected 0, .poll, .poll] _ (by decide) hrun (by decide)⟩

end FwLoader.Upload
