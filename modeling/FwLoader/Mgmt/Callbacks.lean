import FwLoader.Foundations.CString

/-!
# The callbacks of the management server

mcumgr reports each command to `mgmtCbCmdRecv`, which counts the file-system commands, and asks
`mgmtCbFileAccess` before it opens a file. The numbers of mcumgr and the names of the firmware files
are defined in headers outside the repository.
-/

namespace FwLoader.Mgmt

open Foundations

/-- Numbers of mcumgr, and the size of the data of a file access. -/
structure MgmtIds where
  mgmtEvtOpCmdRecv : UInt32
  mgmtEvtOpFsMgmtFileAccess : UInt32
  mgmtGroupIdFs : UInt16
  mgmtErrEinval : Int32
  sizeofFsMgmtFileAccess : ℕ
  size_ne_zero : sizeofFsMgmtFileAccess ≠ 0

/-- The numbers that Zephyr gives them. -/
def zephyrIds : MgmtIds where
  mgmtEvtOpCmdRecv := 0x00000001
  mgmtEvtOpFsMgmtFileAccess := 0x00080001
  mgmtGroupIdFs := 8
  mgmtErrEinval := 3
  sizeofFsMgmtFileAccess := 8
  size_ne_zero := by decide

/-- `enum mgmt_cb_return`, as far as the callbacks use it. -/
inductive MgmtCbReturn
  | ok
  | errorErr
deriving DecidableEq

/-! ## Commands -/

/-- `struct mgmt_evt_op_cmd_arg`, without the fields that are only logged. -/
structure MgmtEvtOpCmdArg where
  group : UInt16
deriving DecidableEq

/-- What `mgmt_cb_cmd_recv` makes of `g_upload_cnt`; it returns `MGMT_CB_OK` in all cases. -/
def mgmtCbCmdRecv (ids : MgmtIds) (gUploadCnt : UInt32) (event : UInt32)
    (data : Option MgmtEvtOpCmdArg) (dataSize : ℕ) : UInt32 :=
  if ids.mgmtEvtOpCmdRecv ≠ event then gUploadCnt
  else if dataSize = 0 then gUploadCnt
  else match data with
    | none => gUploadCnt
    | some pCmdRecv =>
      if ids.mgmtGroupIdFs = pCmdRecv.group then gUploadCnt + 1 else gUploadCnt

/-- `fwloader_mcumgr_mgmt_callbacks_is_uploading_in_progress`, with `g_last_upload_cnt` after it. -/
def isUploadingInProgress (gUploadCnt gLastUploadCnt : UInt32) : Bool × UInt32 :=
  (gUploadCnt ≠ gLastUploadCnt, gUploadCnt)

/-- The callback counts exactly the FS commands that are reported as they should be. -/
theorem mgmtCbCmdRecv_eq (ids : MgmtIds) (gUploadCnt event : UInt32)
    (data : Option MgmtEvtOpCmdArg) (dataSize : ℕ) :
    mgmtCbCmdRecv ids gUploadCnt event data dataSize =
      if event = ids.mgmtEvtOpCmdRecv ∧ dataSize ≠ 0 ∧ data = some ⟨ids.mgmtGroupIdFs⟩ then
        gUploadCnt + 1
      else gUploadCnt := by
  unfold mgmtCbCmdRecv
  by_cases hevent : ids.mgmtEvtOpCmdRecv = event
  swap
  · rw [if_pos hevent, if_neg (fun h => hevent h.1.symm)]
  rw [if_neg (not_not_intro hevent)]
  by_cases hsize : dataSize = 0
  · rw [if_pos hsize, if_neg (fun h => h.2.1 hsize)]
  rw [if_neg hsize]
  rcases data with _ | ⟨⟨group⟩⟩
  · exact (if_neg (fun h => nomatch h.2.2)).symm
  · by_cases hgroup : ids.mgmtGroupIdFs = group
    · have hfs : event = ids.mgmtEvtOpCmdRecv ∧ dataSize ≠ 0 ∧
          some (MgmtEvtOpCmdArg.mk group) = some ⟨ids.mgmtGroupIdFs⟩ :=
        ⟨hevent.symm, hsize, by rw [hgroup]⟩
      exact (if_pos hgroup).trans (if_pos hfs).symm
    · have hfs : ¬(event = ids.mgmtEvtOpCmdRecv ∧ dataSize ≠ 0 ∧
          some (MgmtEvtOpCmdArg.mk group) = some ⟨ids.mgmtGroupIdFs⟩) := by
        rintro ⟨-, -, hdata⟩
        exact hgroup (MgmtEvtOpCmdArg.mk.inj (Option.some.inj hdata)).symm
      exact (if_neg hgroup).trans (if_neg hfs).symm

/-! ## File access -/

/-- The constants of `ruuvi_fw_update.h`. -/
structure RuuviFw where
  pathMaxSize : ℕ
  updateMountPoint : CString
  mcuboot0FileName : CString
  mcuboot1FileName : CString
  loaderFileName : CString
  appFileName : CString

namespace RuuviFw

def slash : CString := ⟨[0x2F], by simp⟩

def fileNames (fw : RuuviFw) : List CString :=
  [fw.mcuboot0FileName, fw.mcuboot1FileName, fw.loaderFileName, fw.appFileName]

/-- `<mount point>/<name>` -/
def path (mntPoint name : CString) : CString := mntPoint ++ slash ++ name

/-- The paths of the four firmware files. -/
def paths (fw : RuuviFw) : List CString := fw.fileNames.map (path fw.updateMountPoint)

/-- The paths fit into the buffer that they are formatted into. -/
def PathsFit (fw : RuuviFw) : Prop := ∀ p ∈ fw.paths, p.strlen < fw.pathMaxSize

instance (fw : RuuviFw) : Decidable fw.PathsFit := inferInstanceAs (Decidable (∀ _ ∈ _, _))

end RuuviFw

open RuuviFw

/-- `check_is_file_path_equal_to_name` -/
def checkIsFilePathEqualToName (fw : RuuviFw) (gPMntPoint pFilePath pFileName : CString) : Bool :=
  let expectedFilePath : Buf fw.pathMaxSize := .zero _
  let expectedFilePath := expectedFilePath.snprintf (path gPMntPoint pFileName)
  if strcmp pFilePath expectedFilePath.toCString ≠ 0 then false else true

/-- `struct fs_mgmt_file_access`, without the field that is only logged. -/
structure FsMgmtFileAccess where
  filename : CString
deriving DecidableEq

/-- What a callback returns and leaves in `*rc` and `*group`. -/
structure MgmtCbResult where
  ret : MgmtCbReturn
  rc : Int32
  group : UInt16
deriving DecidableEq

/-- `mgmt_cb_file_access` -/
def mgmtCbFileAccess (fw : RuuviFw) (ids : MgmtIds) (gPMntPoint : CString) (event : UInt32)
    (rc : Int32) (group : UInt16) (data : Option FsMgmtFileAccess) (dataSize : ℕ) : MgmtCbResult :=
  if ids.mgmtEvtOpFsMgmtFileAccess ≠ event then ⟨.ok, rc, group⟩
  else if dataSize = 0 then ⟨.ok, rc, group⟩
  else match data with
    | none => ⟨.ok, rc, group⟩
    | some pFileAccess =>
      let check := checkIsFilePathEqualToName fw gPMntPoint pFileAccess.filename
      if !check fw.mcuboot0FileName && !check fw.mcuboot1FileName && !check fw.loaderFileName &&
          !check fw.appFileName then
        ⟨.errorErr, ids.mgmtErrEinval, ids.mgmtGroupIdFs⟩
      else ⟨.ok, rc, group⟩

section

variable {fw : RuuviFw} {ids : MgmtIds}

theorem checkIsFilePathEqualToName_eq_true_iff {mntPoint filePath name : CString}
    (hfit : (path mntPoint name).strlen < fw.pathMaxSize) :
    checkIsFilePathEqualToName fw mntPoint filePath name = true ↔
      filePath = path mntPoint name := by
  simp only [checkIsFilePathEqualToName, Buf.toCString_snprintf_of_lt hfit, ne_eq,
    strcmp_eq_zero_iff]
  by_cases h : filePath = path mntPoint name
  · simp [h]
  · simp [h]

/-- The callback lets exactly the paths of the four files through. It changes `*rc` and `*group`
only when it refuses. -/
theorem mgmtCbFileAccess_eq (hfit : fw.PathsFit) (rc : Int32) (group : UInt16)
    (filename : CString) :
    mgmtCbFileAccess fw ids fw.updateMountPoint ids.mgmtEvtOpFsMgmtFileAccess rc group
        (some ⟨filename⟩) ids.sizeofFsMgmtFileAccess =
      if filename ∈ fw.paths then ⟨.ok, rc, group⟩
      else ⟨.errorErr, ids.mgmtErrEinval, ids.mgmtGroupIdFs⟩ := by
  have hcheck : ∀ name ∈ fw.fileNames,
      (checkIsFilePathEqualToName fw fw.updateMountPoint filename name = true ↔
        filename = path fw.updateMountPoint name) :=
    fun name hname =>
      checkIsFilePathEqualToName_eq_true_iff (hfit _ (List.mem_map_of_mem hname))
  have hmem : filename ∈ fw.paths ↔
      ∃ name ∈ fw.fileNames, checkIsFilePathEqualToName fw fw.updateMountPoint filename name := by
    rw [paths, List.mem_map]
    refine exists_congr fun name => and_congr_right fun hname => ?_
    rw [hcheck name hname, eq_comm]
  unfold mgmtCbFileAccess
  rw [if_neg (fun h => h rfl), if_neg ids.size_ne_zero]
  by_cases hpath : filename ∈ fw.paths
  · rw [if_pos hpath]
    refine if_neg ?_
    rw [hmem] at hpath
    simpa [fileNames, imp_iff_not_or, or_assoc] using hpath
  · rw [if_neg hpath]
    refine if_pos ?_
    rw [hmem] at hpath
    simpa [fileNames, and_assoc] using hpath

end

end FwLoader.Mgmt
