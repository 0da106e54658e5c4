import FwLoader.Foundations.Transition
import FwLoader.Mgmt.Callbacks

/-!
# File access during start-up

Main starts advertising before it registers the file-access callback, and a client may connect and
send requests as soon as advertising has started. `startup` interleaves the steps of main with those
of the Bluetooth stack, with clients and with requests. A request that is served before the callback
is registered is not checked, and no other request gets past the four paths.
-/

namespace FwLoader.Mgmt

open Foundations RuuviFw

/-- What main does next: the call that starts advertising, the three steps of
`fwloader_mcumgr_mgmt_callbacks_init`, or the main loop. -/
inductive MainPc
  | startSmpBluetoothAdverts
  | setMntPoint
  | registerCmdRecv
  | registerFileAccess
  | mainLoop
deriving DecidableEq

/-- Main, the Bluetooth stack, the management server, and the paths of the file operations that the
server has executed. -/
structure Startup where
  main : MainPc
  btReadyPending : Bool
  advertiseWork : Bool
  advertised : Bool
  gPMntPoint : Option CString
  cmdRecvRegistered : Bool
  fileAccessRegistered : Bool
  opened : List CString
deriving DecidableEq

namespace Startup

/-- Main has come to the call that starts advertising. -/
def start : Startup :=
  ⟨.startSmpBluetoothAdverts, false, false, false, none, false, false, []⟩

/-- `start_smp_bluetooth_adverts`, with what `bt_enable` returns. -/
def startSmpBluetoothAdverts (s : Startup) (rc : Int32) : Startup :=
  if rc ≠ 0 then s else { s with btReadyPending := true }

/-- The next step of main. `rc` is what `bt_enable` returns where it is called. -/
def mainStep (fw : RuuviFw) (s : Startup) (rc : Int32) : Startup :=
  match s.main with
  | .startSmpBluetoothAdverts => { s.startSmpBluetoothAdverts rc with main := .setMntPoint }
  | .setMntPoint =>
    { s with gPMntPoint := some fw.updateMountPoint, main := .registerCmdRecv }
  | .registerCmdRecv => { s with cmdRecvRegistered := true, main := .registerFileAccess }
  | .registerFileAccess => { s with fileAccessRegistered := true, main := .mainLoop }
  | .mainLoop => s

/-- `bt_ready` -/
def btReady (s : Startup) (err : Int32) : Startup :=
  let s := { s with btReadyPending := false }
  if err ≠ 0 then s else { s with advertiseWork := true }

/-- `advertise`, with what `bt_le_adv_start` returns. -/
def advertise (s : Startup) (rc : Int32) : Startup :=
  let s := { s with advertiseWork := false }
  if rc ≠ 0 then s else { s with advertised := true }

/-- `disconnected`: the device advertises again. -/
def disconnected (s : Startup) (_reason : UInt8) : Startup := { s with advertiseWork := true }

/-- The file operation is executed. -/
def execute (s : Startup) (filename : CString) : Startup :=
  { s with opened := filename :: s.opened }

/-- A request for a file. Without a mount point the callback would format a null pointer. -/
def fsRequest (fw : RuuviFw) (ids : MgmtIds) (s : Startup) (filename : CString) : Option Startup :=
  if s.fileAccessRegistered then
    s.gPMntPoint.bind fun gPMntPoint =>
      let result := mgmtCbFileAccess fw ids gPMntPoint ids.mgmtEvtOpFsMgmtFileAccess 0 0
        (some ⟨filename⟩) ids.sizeofFsMgmtFileAccess
      match result.ret with
      | .ok => some (s.execute filename)
      | .errorErr => some s
  else some (s.execute filename)

/-- The steps of main, of the Bluetooth stack, and of clients. -/
inductive Event
  | main (rc : Int32)
  | btReady (err : Int32)
  | advertise (rc : Int32)
  | connected (err : UInt8)
  | disconnected (reason : UInt8)
  | fsRequest (filename : CString)
deriving DecidableEq

end Startup

open Startup

/-- Start-up as a system. `bt_ready` is called once, `advertise` runs when it has been submitted,
and clients need that advertising has been started. -/
def startup (fw : RuuviFw) (ids : MgmtIds) : System Startup Startup.Event where
  init := .start
  step s
    | .main rc => some (s.mainStep fw rc)
    | .btReady err => if s.btReadyPending then some (s.btReady err) else none
    | .advertise rc => if s.advertiseWork then some (s.advertise rc) else none
    | .connected _ => if s.advertised then some s else none
    | .disconnected reason => if s.advertised then some (s.disconnected reason) else none
    | .fsRequest filename => if s.advertised then s.fsRequest fw ids filename else none

/-- All file operations were executed on the four files. -/
def OpenedOnlyFw (fw : RuuviFw) (s : Startup) : Prop := ∀ p ∈ s.opened, p ∈ fw.paths

instance (fw : RuuviFw) : DecidablePred (OpenedOnlyFw fw) := fun _ =>
  inferInstanceAs (Decidable (∀ _ ∈ _, _))

/-- A request that is served before the callback is registered names one of the four files. -/
def AllowedBeforeHook (fw : RuuviFw) (s : Startup) (e : Startup.Event) : Prop :=
  ∀ filename, e = .fsRequest filename → s.fileAccessRegistered = false → filename ∈ fw.paths

section

variable {fw : RuuviFw} {ids : MgmtIds} {s s' : Startup} {e : Startup.Event}

theorem startSmpBluetoothAdverts_eq (s : Startup) (rc : Int32) :
    ∃ b, s.startSmpBluetoothAdverts rc = { s with btReadyPending := b } := by
  unfold startSmpBluetoothAdverts
  split
  · exact ⟨s.btReadyPending, rfl⟩
  · exact ⟨true, rfl⟩

/-! ## The mount point is set before the callback is registered -/

/-- The mount point is set, or main has not yet come past the step that sets it. -/
def Mounted (fw : RuuviFw) (s : Startup) : Prop :=
  s.gPMntPoint = some fw.updateMountPoint ∨
    s.fileAccessRegistered = false ∧ (s.main = .startSmpBluetoothAdverts ∨ s.main = .setMntPoint)

theorem mounted_mainStep (h : Mounted fw s) (rc : Int32) : Mounted fw (s.mainStep fw rc) := by
  unfold mainStep
  cases hmain : s.main with
  | startSmpBluetoothAdverts =>
    obtain ⟨b, hadverts⟩ := startSmpBluetoothAdverts_eq s rc
    simp only [hadverts]
    rcases h with hmnt | ⟨hreg, -⟩
    · exact .inl hmnt
    · exact .inr ⟨hreg, .inr rfl⟩
  | setMntPoint => exact .inl rfl
  | registerCmdRecv | registerFileAccess | mainLoop =>
    rcases h with hmnt | ⟨-, hpc | hpc⟩
    · exact .inl hmnt
    · exact nomatch hmain.symm.trans hpc
    · exact nomatch hmain.symm.trans hpc

/-- A request is served in every state reached: only a registered callback refuses it, if it names
none of the four files. -/
theorem fsRequest_eq (hfit : fw.PathsFit) (h : Mounted fw s) (filename : CString) :
    s.fsRequest fw ids filename =
      if s.fileAccessRegistered = true ∧ filename ∉ fw.paths then some s
      else some (s.execute filename) := by
  unfold fsRequest
  by_cases hreg : s.fileAccessRegistered = true
  · obtain hmnt | ⟨hreg', -⟩ := h
    swap
    · exact absurd (hreg.symm.trans hreg') nofun
    simp only [hreg, hmnt, if_true, Option.bind_some, true_and, mgmtCbFileAccess_eq hfit]
    by_cases hpath : filename ∈ fw.paths
    · rw [if_pos hpath, if_neg (not_not_intro hpath)]
    · rw [if_neg hpath, if_pos hpath]
  · rw [if_neg hreg, if_neg (fun h => hreg h.1)]

/-- All that a step can do: it executes a file operation, if no callback refuses it, or it leaves
the executed operations as they are. -/
theorem startup_step_cases (hfit : fw.PathsFit) (h : Mounted fw s)
    (hstep : (startup fw ids).step s e = some s') :
    Mounted fw s' ∧
      ((∃ filename, e = .fsRequest filename ∧
          (s.fileAccessRegistered = true → filename ∈ fw.paths) ∧ s' = s.execute filename) ∨
        ((∀ filename, e = .fsRequest filename → s.fileAccessRegistered = true) ∧
          s'.opened = s.opened)) := by
  cases e with
  | main rc =>
    obtain rfl := Option.some.inj hstep
    refine ⟨mounted_mainStep h rc, .inr ⟨nofun, ?_⟩⟩
    obtain ⟨b, hadverts⟩ := startSmpBluetoothAdverts_eq s rc
    unfold mainStep
    rw [hadverts]
    split <;> rfl
  | btReady err =>
    obtain ⟨-, hnext⟩ := Option.ite_none_right_eq_some.mp hstep
    obtain rfl := Option.some.inj hnext
    unfold Startup.btReady
    split <;> exact ⟨h, .inr ⟨nofun, rfl⟩⟩
  | advertise rc =>
    obtain ⟨-, hnext⟩ := Option.ite_none_right_eq_some.mp hstep
    obtain rfl := Option.some.inj hnext
    unfold Startup.advertise
    split <;> exact ⟨h, .inr ⟨nofun, rfl⟩⟩
  | connected err =>
    obtain ⟨-, hnext⟩ := Option.ite_none_right_eq_some.mp hstep
    obtain rfl := Option.some.inj hnext
    exact ⟨h, .inr ⟨nofun, rfl⟩⟩
  | disconnected reason =>
    obtain ⟨-, hnext⟩ := Option.ite_none_right_eq_some.mp hstep
    obtain rfl := Option.some.inj hnext
    exact ⟨h, .inr ⟨nofun, rfl⟩⟩
  | fsRequest filename =>
    obtain ⟨-, hserved⟩ := Option.ite_none_right_eq_some.mp hstep
    rw [fsRequest_eq hfit h] at hserved
    split at hserved
    · rename_i hrefused
      obtain rfl := Option.some.inj hserved
      exact ⟨h, .inr ⟨fun _ _ => hrefused.1, rfl⟩⟩
    · rename_i hserve
      obtain rfl := Option.some.inj hserved
      refine ⟨h, .inl ⟨filename, rfl, fun hreg => ?_, rfl⟩⟩
      by_contra hpath
      exact hserve ⟨hreg, hpath⟩

/-! ## The files that are opened -/

/-- The requests that are served without a check are the only steps that can execute an operation on
another file. -/
theorem openedOnlyFw_step (hfit : fw.PathsFit) (h : Mounted fw s)
    (hstep : (startup fw ids).step s e = some s') :
    OpenedOnlyFw fw s' ↔ OpenedOnlyFw fw s ∧ AllowedBeforeHook fw s e := by
  obtain ⟨-, ⟨filename, rfl, hchecked, rfl⟩ | ⟨hrefused, hopened⟩⟩ :=
    startup_step_cases hfit h hstep
  · unfold OpenedOnlyFw
    show (∀ p ∈ filename :: s.opened, p ∈ fw.paths) ↔ _
    rw [List.forall_mem_cons, and_comm]
    refine and_congr_right fun _ => ⟨?_, fun hallowed => ?_⟩
    · rintro hpath _ ⟨⟩ -
      exact hpath
    · cases hreg : s.fileAccessRegistered with
      | false => exact hallowed filename rfl hreg
      | true => exact hchecked hreg
  · unfold OpenedOnlyFw
    rw [hopened]
    refine (and_iff_left fun filename he hreg => ?_).symm
    exact absurd ((hrefused filename he).symm.trans hreg) nofun

/-- In a run of start-up, file operations are executed on the four files only exactly if each
request that was served before the callback was registered names one of them. -/
theorem openedOnlyFw_iff_allowedBeforeHook (hfit : fw.PathsFit) {es : List Startup.Event}
    (h : (startup fw ids).Run System.Any Startup.start es s) :
    OpenedOnlyFw fw s ↔ (startup fw ids).Run (AllowedBeforeHook fw) Startup.start es s :=
  h.iff_of_step
    (fun _ _ _ hmounted hstep =>
      ⟨(startup_step_cases hfit hmounted hstep).1, openedOnlyFw_step hfit hmounted hstep⟩)
    (.inr ⟨rfl, .inl rfl⟩) nofun

end

/-- Short names for the firmware files. -/
def sampleFw : RuuviFw where
  pathMaxSize := 16
  updateMountPoint := ⟨[0x2F, 0x66, 0x77], by simp⟩
  mcuboot0FileName := ⟨[0x6D, 0x30], by simp⟩
  mcuboot1FileName := ⟨[0x6D, 0x31], by simp⟩
  loaderFileName := ⟨[0x6C, 0x64], by simp⟩
  appFileName := ⟨[0x61, 0x70], by simp⟩

/-- A client that waits for the callback, is refused one path, and is let through with another. -/
theorem openedOnlyFw_iff_allowedBeforeHook_sample :
    ∃ s, (startup sampleFw zephyrIds).Run (AllowedBeforeHook sampleFw) Startup.start
        [.main 0, .btReady 0, .advertise 0, .connected 0, .main 0, .main 0, .main 0,
          .fsRequest slash, .fsRequest ⟨[0x2F, 0x66, 0x77, 0x2F, 0x61, 0x70], by simp⟩] s ∧
      s.opened = [path sampleFw.updateMountPoint sampleFw.appFileName] :=
  have hrun : (startup sampleFw zephyrIds).Run System.Any Startup.start
      [.main 0, .btReady 0, .advertise 0, .connected 0, .main 0, .main 0, .main 0,
        .fsRequest slash, .fsRequest ⟨[0x2F, 0x66, 0x77, 0x2F, 0x61, 0x70], by simp⟩]
      ⟨.mainLoop, false, false, true, some sampleFw.updateMountPoint, true, true,
        [path sampleFw.updateMountPoint sampleFw.appFileName]⟩ := System.run_of_exec (by decide)
  ⟨_, (openedOnlyFw_iff_allowedBeforeHook (by decide) hrun).mp (by decide), rfl⟩

/-- A client that asks for another path before main has registered the callback gets it. -/
theorem not_openedOnlyFw :
    ∃ s, (startup sampleFw zephyrIds).Reach System.Any s ∧ ¬OpenedOnlyFw sampleFw s :=
  ⟨⟨.setMntPoint, false, false, true, none, false, false, [slash]⟩,
    System.reach_of_exec [.main 0, .btReady 0, .advertise 0, .connected 0, .fsRequest slash]
      (by decide), by decide⟩

end FwLoader.Mgmt
