import FwLoader.Upload.Monitor
import Mathlib.Data.List.Basic

/-!
# What the inactivity reboot says about the client

The run is watched: the FS commands of each poll interval are counted, and whether the poll that
ended the interval found a client connected is recorded. `Inv` relates these records to the
variables of the monitor. The time-out counts the polls since the last one that noticed an upload;
as long as the active intervals among them were ended with the link up, there are none.
-/

namespace FwLoader.Upload

open Foundations Mgmt

/-- A poll interval: how many FS commands it saw, and whether a client was connected at the poll
that ended it. -/
structure Interval where
  fsCmds : ℕ
  linkUp : Bool
deriving DecidableEq

/-- The intervals that have ended, the last one first, and the FS commands since. -/
structure Intervals where
  closed : List Interval
  current : ℕ
deriving DecidableEq

namespace Intervals

def start : Intervals := ⟨[], 0⟩

/-- What is recorded of an event. -/
def note (ids : MgmtIds) (g : Intervals) (s : Monitor) (e : Event) : Intervals :=
  if e = .poll then ⟨⟨g.current, s.gBtIsConnected⟩ :: g.closed, 0⟩
  else if IsFsCmd ids e then { g with current := g.current + 1 }
  else g

/-- There are `n` last intervals and none of them saw an FS command. -/
def Quiet (g : Intervals) (n : ℕ) : Prop :=
  n ≤ g.closed.length ∧ ∀ i ∈ g.closed.take n, i.fsCmds = 0

/-- Those of the last `n` intervals that saw an FS command were ended with the link up. -/
def EndedLinkUp (g : Intervals) (n : ℕ) : Prop :=
  ∀ i ∈ g.closed.take n, i.fsCmds ≠ 0 → i.linkUp = true

instance (g : Intervals) (n : ℕ) : Decidable (g.Quiet n) := inferInstanceAs (Decidable (_ ∧ _))

end Intervals

/-- The monitor with a record of the poll intervals. -/
def watched (ids : MgmtIds) (T : UInt32) : System (Monitor × Intervals) Event :=
  (monitor ids T).addGhost .start (Intervals.note ids)

/-- A poll interval sees fewer than `2 ^ 32` FS commands. -/
def FewCommands (p : Monitor × Intervals) (e : Event) : Prop := e = .poll → p.2.current < 2 ^ 32

instance (p : Monitor × Intervals) (e : Event) : Decidable (FewCommands p e) :=
  inferInstanceAs (Decidable (_ → _))

section

variable {ids : MgmtIds} {T : UInt32} {p p' : Monitor × Intervals} {e : Event}

/-! ## The intervals that the time-out counts -/

/-- The time-out counts the last intervals, and if the active ones among them were ended with the
link up, then there are none and all commands that are not yet noticed belong to the interval that
goes on. -/
structure Inv (T : UInt32) (p : Monitor × Intervals) : Prop where
  counted : p.1.uploadingTimeoutCnt.toNat ≤ p.2.closed.length
  waiting : Waiting T p.1
  expired : p.1.rebooted = true → p.1.uploadingTimeoutCnt = T
  noticed : p.2.EndedLinkUp p.1.uploadingTimeoutCnt.toNat →
    p.2.Quiet p.1.uploadingTimeoutCnt.toNat ∧
      p.1.gUploadCnt = p.1.gLastUploadCnt + UInt32.ofNat p.2.current

theorem inv_start (hT : 1 ≤ T) : Inv T (watched ids T).init where
  counted := Nat.zero_le _
  waiting := waiting_start hT
  expired h := nomatch h
  noticed _ := ⟨⟨Nat.zero_le _, nofun⟩, rfl⟩

theorem ofNat_ne_zero {n : ℕ} (hn : n ≠ 0) (hlt : n < 2 ^ 32) : UInt32.ofNat n ≠ 0 := by
  intro h
  have hmod := congrArg UInt32.toNat h
  rw [UInt32.toNat_ofNat', Nat.mod_eq_of_lt hlt] at hmod
  exact hn hmod

/-- The records after a poll. -/
private theorem Inv.poll (hinv : Inv T p) (hT : 1 ≤ T) (hrunning : p.1.rebooted = false)
    (hfew : p.2.current < 2 ^ 32) :
    Inv T (p.1.mainLoopBody T, ⟨⟨p.2.current, p.1.gBtIsConnected⟩ :: p.2.closed, 0⟩) := by
  obtain ⟨s, g⟩ := p
  obtain ⟨hcounted, hwaiting, -, hquiet⟩ := hinv
  have hlt : s.uploadingTimeoutCnt.toNat < T.toNat := hwaiting hrunning
  have hsucc := hwaiting.toNat_add_one hrunning
  have hwaiting' : Waiting T (s.mainLoopBody T) := waiting_mainLoopBody hT hrunning
  rw [Monitor.mainLoopBody_eq hT hrunning] at hwaiting' ⊢
  by_cases hnoticed : s.Noticed
  · -- the time-out starts again and counts no interval
    rw [if_pos hnoticed] at hwaiting' ⊢
    exact {
      counted := Nat.zero_le _
      waiting := hwaiting'
      expired := fun h => absurd (hrunning.symm.trans h) nofun
      noticed := fun _ => ⟨⟨Nat.zero_le _, by simp⟩, by simp⟩ }
  · rw [if_neg hnoticed] at hwaiting' ⊢
    refine ⟨?_, hwaiting', ?_, ?_⟩
    · show (s.uploadingTimeoutCnt + 1).toNat ≤ g.closed.length + 1
      rw [hsucc]
      exact Nat.succ_le_succ hcounted
    · intro h
      have hT' : T ≤ s.uploadingTimeoutCnt + 1 := of_decide_eq_true h
      show s.uploadingTimeoutCnt + 1 = T
      refine UInt32.toNat_inj.mp (Nat.le_antisymm ?_ hT')
      rw [hsucc]
      exact hlt
    · simp only [Intervals.EndedLinkUp, Intervals.Quiet, hsucc, List.take_succ_cons,
        List.forall_mem_cons, List.length_cons]
      rintro ⟨hhead, htail⟩
      obtain ⟨hq, hcnt⟩ := hquiet htail
      -- an active interval that is ended with the link up would have been noticed
      have hcurrent : g.current = 0 := by
        by_contra hactive
        refine hnoticed ⟨hhead hactive, ?_⟩
        show s.gUploadCnt ≠ s.gLastUploadCnt
        intro heq
        refine ofNat_ne_zero hactive hfew ?_
        rw [heq] at hcnt
        simpa using hcnt.symm
      refine ⟨⟨Nat.succ_le_succ hq.1, hcurrent, hq.2⟩, ?_⟩
      rw [hcnt, hcurrent]

private theorem Inv.step (hinv : Inv T p) (hT : 1 ≤ T) (hfew : FewCommands p e)
    (hstep : (watched ids T).step p e = some p') : Inv T p' := by
  obtain ⟨s, g⟩ := p
  obtain ⟨s', g'⟩ := p'
  obtain ⟨hmonitor, rfl⟩ := System.addGhost_step_eq_some.mp hstep
  obtain ⟨hrunning, ⟨hcmd, rfl⟩ | ⟨rfl, rfl⟩ | ⟨hcmd, hpoll, b, rfl⟩⟩ := monitor_step_cases hmonitor
  · have hpoll : e ≠ .poll := by
      rintro rfl
      exact hcmd
    rw [Intervals.note, if_neg hpoll, if_pos hcmd]
    refine ⟨hinv.counted, hinv.waiting, hinv.expired, fun h => ?_⟩
    obtain ⟨hquiet, hcnt⟩ := hinv.noticed h
    refine ⟨hquiet, ?_⟩
    show s.gUploadCnt + 1 = s.gLastUploadCnt + UInt32.ofNat (g.current + 1)
    rw [UInt32.ofNat_add, ← UInt32.add_assoc]
    exact congrArg (· + 1) hcnt
  · exact hinv.poll hT hrunning (hfew rfl)
  · rw [Intervals.note, if_neg hpoll, if_neg hcmd]
    exact ⟨hinv.counted, hinv.waiting, hinv.expired, hinv.noticed⟩

theorem inv_of_reach (hT : 1 ≤ T) (h : (watched ids T).Reach FewCommands p) : Inv T p :=
  h.invariant (inv_start hT) fun _ _ _ hinv hfew hstep => hinv.step hT hfew hstep

/-! ## The reboot -/

/-- When the monitor reboots the device, nothing was uploaded in the last `T` poll intervals exactly
if each of them that saw an FS command was ended with the link up. -/
theorem reboot_quiet_iff_endedLinkUp (hT : 1 ≤ T) (h : (watched ids T).Reach FewCommands p)
    (hreboot : p.1.rebooted = true) : p.2.Quiet T.toNat ↔ p.2.EndedLinkUp T.toNat := by
  have hinv := inv_of_reach hT h
  rw [← hinv.expired hreboot]
  constructor
  · rintro ⟨-, hzero⟩ i hi hactive
    exact absurd (hzero i hi) hactive
  · intro hlink
    exact (hinv.noticed hlink).1

end

/-- The reception of an FS command. -/
def fsCmd : Event := .cmdRecv 1 (some ⟨8⟩) 4

/-- A client uploads, stays until it is noticed, and leaves. -/
theorem reboot_quiet_iff_endedLinkUp_sample :
    ∃ p, (watched zephyrIds 2).Reach FewCommands p ∧ p.1.rebooted = true ∧
      (p.2.Quiet 2 ↔ p.2.EndedLinkUp 2) :=
  have hreach : (watched zephyrIds 2).Reach FewCommands
      (⟨1, 1, 2, false, true⟩, ⟨[⟨0, false⟩, ⟨0, false⟩, ⟨1, true⟩], 0⟩) :=
    System.reach_of_exec [.connected 0, fsCmd, .poll, .disconnected 0x13, .poll, .poll] (by decide)
  ⟨_, hreach, rfl, reboot_quiet_iff_endedLinkUp (by decide) hreach rfl⟩

/-- A client that uploads and loses the link just before the poll is not noticed: the device reboots
at once, although the interval that ends was active. -/
theorem reboot_not_quiet :
    ∃ p, (watched zephyrIds 2).Reach FewCommands p ∧ p.1.rebooted = true ∧ ¬p.2.Quiet 2 :=
  ⟨(⟨1, 0, 2, false, true⟩, ⟨[⟨1, false⟩, ⟨0, true⟩], 0⟩),
    System.reach_of_exec [.connected 0, .poll, fsCmd, .disconnected 0x08, .poll] (by decide), rfl,
    by decide⟩

end FwLoader.Upload
