import FwLoader.Mgmt.Startup
import Mathlib.Logic.Function.Basic

/-!
# Uploads and their announcement

Before it reboots the device, the main thread looks for the four firmware files and announces an
update by the colour of the LED. The paths it looks for are literals of `main.c`; the paths that
`mgmtCbFileAccess` lets through are put together while the device runs. `uploads` is the mounted
file system under requests for files once the callback is registered.
-/

namespace FwLoader.Mgmt

open Foundations RuuviFw

/-- The regular files of the mounted file system, by their paths. -/
abbrev Files : Type := CString → Option (List UInt8)

/-- `enum fs_dir_entry_type` -/
inductive FsDirEntryType
  | file
  | dir
deriving DecidableEq

/-- `ENOENT` -/
def enoent : Int32 := 2

/-- `fs_stat`: what it returns and leaves in the entry, of which the type is read. Where there is no
regular file it fails, or it finds a directory. -/
structure FsStat where
  stat : Files → CString → FsDirEntryType → Int32 × FsDirEntryType
  stat_of_some : ∀ files path data type, files path = some data → stat files path type = (0, .file)
  stat_of_none : ∀ files path type, files path = none →
    (stat files path type).1 ≠ 0 ∨ (stat files path type).2 = .dir

/-- The file system as it is formatted. -/
def formatted : Files := fun _ => none

/-- `btldr_fs_mount`, with what its three calls return: its result, and
the files that are mounted. -/
def btldrFsMount (rcMkfs rcMount rcStatvfs : Int32) : Bool × Option Files :=
  if rcMkfs ≠ 0 then (false, none)
  else if rcMount ≠ 0 then (false, none)
  else if rcStatvfs < 0 then (false, some formatted)
  else (true, some formatted)

/-! ## Requests -/

/-- A request for a file, `*rc` and `*group` as the callback finds them, and what an operation that
is let through leaves at the path. -/
structure FsRequest where
  rc : Int32
  group : UInt16
  filename : CString
  left : Option (List UInt8)

/-- What the callback registered for the mount point says to a request. -/
def answer (fw : RuuviFw) (ids : MgmtIds) (request : FsRequest) : MgmtCbResult :=
  mgmtCbFileAccess fw ids fw.updateMountPoint ids.mgmtEvtOpFsMgmtFileAccess request.rc request.group
    (some ⟨request.filename⟩) ids.sizeofFsMgmtFileAccess

/-- The mounted file system under requests. -/
def uploads (fw : RuuviFw) (ids : MgmtIds) : System Files FsRequest where
  init := formatted
  step files request :=
    match (answer fw ids request).ret with
    | .ok => some (Function.update files request.filename request.left)
    | .errorErr => some files

/-! ## The reboot -/

/-- `app_fs_is_file_exist`, with `g_fs_dir_entry` before and after it. -/
def appFsIsFileExist (api : FsStat) (files : Files) (pAbsPath : CString)
    (gFsDirEntry : FsDirEntryType) : Bool × FsDirEntryType :=
  let (rc, gFsDirEntry) := api.stat files pAbsPath gFsDirEntry
  if -enoent = rc then (false, gFsDirEntry)
  else if 0 ≠ rc then (false, gFsDirEntry)
  else if .file ≠ gFsDirEntry then (false, gFsDirEntry)
  else (true, gFsDirEntry)

/-- `flag_updates_available` of `__wrap_sys_reboot` -/
def flagUpdatesAvailable (api : FsStat) (fw : RuuviFw) (files : Files)
    (gFsDirEntry : FsDirEntryType) : Bool :=
  let flag := false
  let mcuboot0 :=
    appFsIsFileExist api files (path fw.updateMountPoint fw.mcuboot0FileName) gFsDirEntry
  let flag := if mcuboot0.1 then true else flag
  let mcuboot1 :=
    appFsIsFileExist api files (path fw.updateMountPoint fw.mcuboot1FileName) mcuboot0.2
  let flag := if mcuboot1.1 then true else flag
  let loader := appFsIsFileExist api files (path fw.updateMountPoint fw.loaderFileName) mcuboot1.2
  let flag := if loader.1 then true else flag
  let app := appFsIsFileExist api files (path fw.updateMountPoint fw.appFileName) loader.2
  if app.1 then true else flag

/-- What a call of `sys_reboot` does, one after the other. -/
inductive RebootStep
  | turnOffLed
  | turnOnAnimationBlinkingWhite
  | restart
  | requestReboot
deriving DecidableEq

/-- `__wrap_sys_reboot` -/
def wrapSysReboot (api : FsStat) (fw : RuuviFw) (files : Files) (gFsDirEntry : FsDirEntryType)
    (isMainThread isLp5810Ready : Bool) : List RebootStep :=
  if isMainThread then
    (if isLp5810Ready then [.turnOffLed] else []) ++
      ((if flagUpdatesAvailable api fw files gFsDirEntry then
        if isLp5810Ready then [.turnOnAnimationBlinkingWhite] else []
      else []) ++ [.restart])
  else [.requestReboot]

section

variable {fw : RuuviFw} {ids : MgmtIds} {files files' : Files} {request : FsRequest}

/-! ## Only firmware files are left behind -/

/-- The file system has no other regular files than firmware files. -/
def OnlyFw (fw : RuuviFw) (files : Files) : Prop := ∀ p, (files p).isSome = true → p ∈ fw.paths

theorem answer_eq (hfit : fw.PathsFit) (request : FsRequest) :
    answer fw ids request =
      if request.filename ∈ fw.paths then ⟨.ok, request.rc, request.group⟩
      else ⟨.errorErr, ids.mgmtErrEinval, ids.mgmtGroupIdFs⟩ :=
  mgmtCbFileAccess_eq hfit request.rc request.group request.filename

/-- All that a request can do: it is let through and changes the file that it names, one of the
four, or it is refused and changes nothing. -/
theorem uploads_step_cases (hfit : fw.PathsFit)
    (hstep : (uploads fw ids).step files request = some files') :
    (request.filename ∈ fw.paths ∧
        files' = Function.update files request.filename request.left) ∨
      (request.filename ∉ fw.paths ∧ files' = files) := by
  simp only [uploads, answer_eq hfit] at hstep
  by_cases hpath : request.filename ∈ fw.paths
  · simp only [if_pos hpath, Option.some.injEq] at hstep
    exact .inl ⟨hpath, hstep.symm⟩
  · simp only [if_neg hpath, Option.some.injEq] at hstep
    exact .inr ⟨hpath, hstep.symm⟩

theorem onlyFw_formatted : OnlyFw fw formatted := fun _ hp => absurd hp (by simp [formatted])

theorem onlyFw_step (hfit : fw.PathsFit) (h : OnlyFw fw files)
    (hstep : (uploads fw ids).step files request = some files') : OnlyFw fw files' := by
  intro p hp
  rcases uploads_step_cases hfit hstep with ⟨hpath, rfl⟩ | ⟨-, rfl⟩
  · by_cases hname : p = request.filename
    · rw [hname]
      exact hpath
    · rw [Function.update_of_ne hname] at hp
      exact h p hp
  · exact h p hp

/-- Whatever clients ask for, no other files than firmware files are left behind. -/
theorem onlyFw_of_reach (hfit : fw.PathsFit) (h : (uploads fw ids).Reach System.Any files) :
    OnlyFw fw files :=
  h.invariant onlyFw_formatted fun _ _ _ hfiles _ hstep => onlyFw_step hfit hfiles hstep

/-- A mount that succeeds gives the file system that the requests start from. -/
theorem btldrFsMount_eq_true {rcMkfs rcMount rcStatvfs : Int32}
    (h : (btldrFsMount rcMkfs rcMount rcStatvfs).1 = true) :
    (btldrFsMount rcMkfs rcMount rcStatvfs).2 = some (uploads fw ids).init := by
  revert h
  unfold btldrFsMount
  split_ifs
  all_goals simp [uploads]

/-! ## What is announced -/

theorem appFsIsFileExist_fst (api : FsStat) (files : Files) (p : CString) (type : FsDirEntryType) :
    (appFsIsFileExist api files p type).1 = (files p).isSome := by
  rcases hp : files p with _ | data
  · simp only [appFsIsFileExist, Option.isSome_none]
    rcases api.stat_of_none files p type hp with hrc | hdir
    · rw [if_pos hrc.symm]
      split <;> rfl
    · have hne : FsDirEntryType.file ≠ (api.stat files p type).2 := by
        rw [hdir]
        decide
      rw [if_pos hne]
      split_ifs <;> rfl
  · simp [appFsIsFileExist, api.stat_of_some files p data type hp, enoent]

/-- The flag says whether one of the four files is there. -/
theorem flagUpdatesAvailable_eq (api : FsStat) (files : Files) (type : FsDirEntryType) :
    flagUpdatesAvailable api fw files type = fw.paths.any fun p => (files p).isSome := by
  simp only [flagUpdatesAvailable, appFsIsFileExist_fst, paths, fileNames, List.map_cons,
    List.map_nil, List.any_cons, List.any_nil]
  grind

theorem blinkingWhite_mem_wrapSysReboot_iff (api : FsStat) (files : Files) (type : FsDirEntryType)
    (isLp5810Ready : Bool) :
    .turnOnAnimationBlinkingWhite ∈ wrapSysReboot api fw files type true isLp5810Ready ↔
      isLp5810Ready = true ∧ flagUpdatesAvailable api fw files type = true := by
  unfold wrapSysReboot
  split_ifs with hready hflag <;> simp_all

/-- A request is refused with the error of the file-system group or lets `*rc` and `*group` be, and
in every state that requests lead to the main thread announces an update exactly when the file
system holds a regular file. -/
theorem flagUpdatesAvailable_iff (api : FsStat) (hfit : fw.PathsFit) :
    (∀ request, (answer fw ids request).ret = .ok →
        (answer fw ids request).rc = request.rc ∧ (answer fw ids request).group = request.group) ∧
      (∀ request, (answer fw ids request).ret = .errorErr →
        (answer fw ids request).rc = ids.mgmtErrEinval ∧
          (answer fw ids request).group = ids.mgmtGroupIdFs) ∧
      ∀ files, (uploads fw ids).Reach System.Any files → ∀ type,
        (flagUpdatesAvailable api fw files type = true ↔ ∃ p, (files p).isSome = true) ∧
          (.turnOnAnimationBlinkingWhite ∈ wrapSysReboot api fw files type true true ↔
            ∃ p, (files p).isSome = true) := by
  refine ⟨fun request hok => ?_, fun request herr => ?_, fun files h type => ?_⟩
  · rw [answer_eq hfit] at hok ⊢
    split at hok
    · rename_i hpath
      rw [if_pos hpath]
      exact ⟨rfl, rfl⟩
    · exact absurd hok (by simp)
  · rw [answer_eq hfit] at herr ⊢
    split at herr
    · exact absurd herr (by simp)
    · rename_i hpath
      rw [if_neg hpath]
      exact ⟨rfl, rfl⟩
  · have hflag : flagUpdatesAvailable api fw files type = true ↔ ∃ p, (files p).isSome = true := by
      rw [flagUpdatesAvailable_eq, List.any_eq_true]
      exact ⟨fun ⟨p, _, hp⟩ => ⟨p, hp⟩, fun ⟨p, hp⟩ => ⟨p, onlyFw_of_reach hfit h p hp, hp⟩⟩
    exact ⟨hflag, by rw [blinkingWhite_mem_wrapSysReboot_iff, and_iff_right rfl, hflag]⟩

end

/-- An `fs_stat` that does what is documented. The mount point is a directory. -/
def sampleStat : FsStat where
  stat files path type := match files path with
    | some _ => (0, .file)
    | none => if path = sampleFw.updateMountPoint then (0, .dir) else (-enoent, type)
  stat_of_some files path data type h := by rw [h]
  stat_of_none files path type h := by
    rw [h]
    by_cases hpath : path = sampleFw.updateMountPoint
    · exact .inr (congrArg Prod.snd (if_pos hpath))
    · refine .inl ?_
      simp only [if_neg hpath]
      decide

/-- A client is refused one path and leaves a file at another, and the reboot announces it. -/
theorem flagUpdatesAvailable_iff_sample :
    ∃ files, (uploads sampleFw zephyrIds).Reach System.Any files ∧
      flagUpdatesAvailable sampleStat sampleFw files .dir = true := by
  have hrun : (uploads sampleFw zephyrIds).exec System.Any formatted
      [⟨0, 0, slash, some [1]⟩,
        ⟨0, 0, path sampleFw.updateMountPoint sampleFw.appFileName, some [2]⟩] =
      some (Function.update formatted (path sampleFw.updateMountPoint sampleFw.appFileName)
        (some [2])) := rfl
  have hreach := System.reach_of_exec _ hrun
  refine ⟨_, hreach, ?_⟩
  refine (((flagUpdatesAvailable_iff sampleStat (by decide)).2.2 _ hreach .dir).1).mpr ?_
  exact ⟨path sampleFw.updateMountPoint sampleFw.appFileName, by rw [Function.update_self]; rfl⟩

end FwLoader.Mgmt
