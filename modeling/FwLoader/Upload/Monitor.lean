import FwLoader.Foundations.Transition
import FwLoader.Mgmt.Callbacks
import Mathlib.Data.List.Count
import Mathlib.Order.Basic

/-!
# The upload monitor

The main loop reboots the device when nothing has been uploaded for a while. What it knows of
uploads is a counter of file-system commands, which it compares with the value at the last
comparison, but only when a client is connected at the instant of the poll.
-/

namespace FwLoader.Upload

open Foundations Mgmt

/-- The variables of the monitor, and whether `sys_reboot` has been called by it. -/
structure Monitor where
  gUploadCnt : UInt32
  gLastUploadCnt : UInt32
  uploadingTimeoutCnt : UInt32
  gBtIsConnected : Bool
  rebooted : Bool
deriving DecidableEq

/-- The callbacks that touch the monitor, and one round of the main loop. -/
inductive Event
  | connected (err : UInt8)
  | disconnected (reason : UInt8)
  | cmdRecv (event : UInt32) (data : Option MgmtEvtOpCmdArg) (dataSize : ℕ)
  | poll
deriving DecidableEq

/-! ## The code -/

namespace Monitor

/-- The variables as they are initialised. -/
def start : Monitor := ⟨0, 0, 0, false, false⟩

/-- `connected` -/
def connected (s : Monitor) (err : UInt8) : Monitor :=
  if err ≠ 0 then s else { s with gBtIsConnected := true }

/-- `disconnected` -/
def disconnected (s : Monitor) (_reason : UInt8) : Monitor := { s with gBtIsConnected := false }

/-- `mgmt_cb_cmd_recv` -/
def mgmtCbCmdRecv (ids : MgmtIds) (s : Monitor) (event : UInt32) (data : Option MgmtEvtOpCmdArg)
    (dataSize : ℕ) : Monitor :=
  { s with gUploadCnt := Mgmt.mgmtCbCmdRecv ids s.gUploadCnt event data dataSize }

/-- `fwloader_mcumgr_mgmt_callbacks_is_uploading_in_progress` -/
def isUploadingInProgress (s : Monitor) : Bool × Monitor :=
  let (isUploading, gLastUploadCnt) := Mgmt.isUploadingInProgress s.gUploadCnt s.gLastUploadCnt
  (isUploading, { s with gLastUploadCnt := gLastUploadCnt })

/-- What the main loop does about uploads in one round, with
`CONFIG_RUUVI_AIR_FW_LOADER_UPLOADING_TIMEOUT_SEC` being `T`. -/
def mainLoopBody (T : UInt32) (s : Monitor) : Monitor :=
  let s :=
    if s.gBtIsConnected then
      let (isUploading, s) := s.isUploadingInProgress
      if isUploading then { s with uploadingTimeoutCnt := 0 }
      else { s with uploadingTimeoutCnt := s.uploadingTimeoutCnt + 1 }
    else { s with uploadingTimeoutCnt := s.uploadingTimeoutCnt + 1 }
  if s.uploadingTimeoutCnt ≥ T then { s with rebooted := true } else s

/-- What an event does. -/
def handle (ids : MgmtIds) (T : UInt32) (s : Monitor) : Event → Monitor
  | .connected err => s.connected err
  | .disconnected reason => s.disconnected reason
  | .cmdRecv event data dataSize => s.mgmtCbCmdRecv ids event data dataSize
  | .poll => s.mainLoopBody T

/-- The next comparison will find the counter changed. -/
def Pending (s : Monitor) : Prop := s.gUploadCnt ≠ s.gLastUploadCnt

instance (s : Monitor) : Decidable s.Pending := inferInstanceAs (Decidable (_ ≠ _))

/-- A poll makes the comparison and finds the counter changed. -/
def Noticed (s : Monitor) : Prop := s.gBtIsConnected = true ∧ s.Pending

instance (s : Monitor) : Decidable s.Noticed := inferInstanceAs (Decidable (_ ∧ _))

end Monitor

/-- The monitor as a system. The call of `sys_reboot` does not return. -/
def monitor (ids : MgmtIds) (T : UInt32) : System Monitor Event where
  init := .start
  step s e := if s.rebooted then none else some (s.handle ids T e)

/-- The reception of an FS command, as `mgmt_cb_cmd_recv` recognises it. -/
def IsFsCmd (ids : MgmtIds) : Event → Prop
  | .cmdRecv event data dataSize => event = ids.mgmtEvtOpCmdRecv ∧ dataSize ≠ 0 ∧
      data = some ⟨ids.mgmtGroupIdFs⟩
  | _ => False

instance (ids : MgmtIds) : DecidablePred (IsFsCmd ids)
  | .cmdRecv _ _ _ => inferInstanceAs (Decidable (_ ∧ _))
  | .connected _ | .disconnected _ | .poll => inferInstanceAs (Decidable False)

section

variable {ids : MgmtIds} {T : UInt32} {s s' : Monitor} {e : Event}

namespace Monitor

theorem mgmtCbCmdRecv_eq (event : UInt32) (data : Option MgmtEvtOpCmdArg) (dataSize : ℕ) :
    s.mgmtCbCmdRecv ids event data dataSize =
      if IsFsCmd ids (.cmdRecv event data dataSize) then { s with gUploadCnt := s.gUploadCnt + 1 }
      else s := by
  rw [mgmtCbCmdRecv, Mgmt.mgmtCbCmdRecv_eq]
  by_cases hcmd : IsFsCmd ids (.cmdRecv event data dataSize)
  · rw [if_pos hcmd, if_pos (by exact hcmd)]
  · rw [if_neg hcmd, if_neg (by exact hcmd)]

/-- A round of the main loop either notices an upload and starts the time-out again, or it leaves
the two counters as they are, because it makes no comparison or finds them equal. -/
theorem mainLoopBody_eq (hT : 1 ≤ T) (hrunning : s.rebooted = false) :
    s.mainLoopBody T =
      if s.Noticed then { s with gLastUploadCnt := s.gUploadCnt, uploadingTimeoutCnt := 0 }
      else { s with
        uploadingTimeoutCnt := s.uploadingTimeoutCnt + 1
        rebooted := decide (T ≤ s.uploadingTimeoutCnt + 1) } := by
  obtain ⟨cnt, last, timeout, isConnected, rebooted⟩ := s
  obtain rfl : rebooted = false := hrunning
  have hzero : ¬T ≤ 0 := by grind
  cases isConnected with
  | false => simp only [mainLoopBody, Noticed]; grind
  | true =>
    by_cases hpending : cnt = last
    · simp only [mainLoopBody, isUploadingInProgress, Mgmt.isUploadingInProgress, Noticed, Pending,
        hpending]
      grind
    · simp [mainLoopBody, isUploadingInProgress, Mgmt.isUploadingInProgress, Noticed, Pending,
        hpending, hzero]

end Monitor

/-- All that a step can do. -/
theorem monitor_step_cases (h : (monitor ids T).step s e = some s') :
    s.rebooted = false ∧
      ((IsFsCmd ids e ∧ s' = { s with gUploadCnt := s.gUploadCnt + 1 }) ∨
        (e = .poll ∧ s' = s.mainLoopBody T) ∨
        (¬IsFsCmd ids e ∧ e ≠ .poll ∧ ∃ b, s' = { s with gBtIsConnected := b })) := by
  simp only [monitor, Option.ite_none_left_eq_some, Bool.not_eq_true, Option.some.injEq] at h
  obtain ⟨hrebooted, rfl⟩ := h
  refine ⟨hrebooted, ?_⟩
  cases e with
  | connected err =>
    refine .inr (.inr ⟨id, nofun, ?_⟩)
    by_cases herr : err = 0
    · exact ⟨true, by simp [Monitor.handle, Monitor.connected, herr]⟩
    · exact ⟨s.gBtIsConnected, by simp [Monitor.handle, Monitor.connected, herr]⟩
  | disconnected reason => exact .inr (.inr ⟨id, nofun, false, rfl⟩)
  | cmdRecv event data dataSize =>
    rw [Monitor.handle, Monitor.mgmtCbCmdRecv_eq]
    by_cases hcmd : IsFsCmd ids (.cmdRecv event data dataSize)
    · exact .inl ⟨hcmd, if_pos hcmd⟩
    · exact .inr (.inr ⟨hcmd, nofun, s.gBtIsConnected, if_neg hcmd⟩)
  | poll => exact .inr (.inl ⟨rfl, rfl⟩)

/-! ## The time-out is below its limit -/

/-- As long as the monitor has not rebooted the device, the time-out is below its limit. -/
def Waiting (T : UInt32) (s : Monitor) : Prop := s.rebooted = false → s.uploadingTimeoutCnt < T

theorem waiting_start (hT : 1 ≤ T) : Waiting T .start := by
  intro _
  show (0 : UInt32) < T
  grind

theorem waiting_mainLoopBody (hT : 1 ≤ T) (hrunning : s.rebooted = false) :
    Waiting T (s.mainLoopBody T) := by
  rw [Monitor.mainLoopBody_eq hT hrunning]
  by_cases hnoticed : s.Noticed
  · rw [if_pos hnoticed]
    intro _
    show (0 : UInt32) < T
    grind
  · rw [if_neg hnoticed]
    intro hnext
    show s.uploadingTimeoutCnt + 1 < T
    have hnot : ¬T ≤ s.uploadingTimeoutCnt + 1 := of_decide_eq_false hnext
    grind

theorem waiting_step (hT : 1 ≤ T) (hwaiting : Waiting T s)
    (hstep : (monitor ids T).step s e = some s') : Waiting T s' := by
  obtain ⟨hrunning, ⟨-, rfl⟩ | ⟨rfl, rfl⟩ | ⟨-, -, b, rfl⟩⟩ := monitor_step_cases hstep
  · exact hwaiting
  · exact waiting_mainLoopBody hT hrunning
  · exact hwaiting

theorem waiting_of_reach (hT : 1 ≤ T) (h : (monitor ids T).Reach System.Any s) : Waiting T s :=
  h.invariant (waiting_start hT) fun _ _ _ hwaiting _ hstep => waiting_step hT hwaiting hstep

/-- Below its limit the time-out does not wrap around. -/
theorem Waiting.toNat_add_one (hwaiting : Waiting T s) (hrunning : s.rebooted = false) :
    (s.uploadingTimeoutCnt + 1).toNat = s.uploadingTimeoutCnt.toNat + 1 := by
  have hlt : s.uploadingTimeoutCnt.toNat < T.toNat := hwaiting hrunning
  have hT := T.toNat_lt
  rw [UInt32.toNat_add, UInt32.toNat_one, Nat.mod_eq_of_lt (by omega)]

end

end FwLoader.Upload
