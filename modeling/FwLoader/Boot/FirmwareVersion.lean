import FwLoader.Image.Printing
import FwLoader.Image.Signed
import FwLoader.Version.BuildType

/-!
# The firmware version at boot

`fwloader_fw_ver_init` stores the version that the loader has been built as, finds out which version
and hardware revision its image has been signed with, and logs an error for each that the build does
not agree with. The messages of the functions that find this out are left out. The three comparisons
are made with what is in the variables, so a slot that nothing can be found out about is compared as
version 0 and revision 0.
-/

namespace FwLoader.Boot

open Foundations Image

/-- What the build defines. -/
structure Build where
  gCfgHwRev : Int32
  appVersionExtendedString : CString
  imgtoolSignVersion : CString
  fwInfoFirmwareVersion : ℕ
  appBuildVersion : CString
  appVersionNumber : CString
  appVersionTweakString : CString
  appCommitString : CString
  ncsVersionString : CString
  ncsBuildVersion : CString
  ncsCommitString : CString
  kernelVersionExtendedString : CString
  buildVersion : CString
  zephyrCommitString : CString

/-- `g_fw_ver_buf`, `g_fw_img_fw_ver` and `g_fw_img_hw_rev`. -/
structure FwVer (build : Build) where
  gFwVerBuf : Buf (build.appVersionExtendedString.strlen + 1)
  gFwImgFwVer : ImageVersion
  gFwImgHwRev : FwImageHwRev

namespace FwVer

variable {build : Build}

/-- `fwloader_fw_ver_get` -/
def fwloaderFwVerGet (g : FwVer build) : CString := g.gFwVerBuf.toCString

/-- `CONFIG_BT_DIS_HW_REV_STR` -/
def configBtDisHwRevStr : CString := .lit "Check PCB"

/-- `fwloader_hw_rev_get` -/
def fwloaderHwRevGet (g : FwVer build) : CString :=
  if g.gFwImgHwRev.hwRevName.first = 0 then configBtDisHwRevStr
  else g.gFwImgHwRev.hwRevName.toCString

end FwVer

/-! ## The program -/

/-- `if (cond) { LOG_ERR(text) }` -/
def logErrIf (cond : Prop) [Decidable cond] (text : CString) : Prog printApi Unit :=
  if cond then logErr text else pure ()

variable (build : Build)

/-- The error about the hardware revision `num` of the image. -/
def hwRevMismatch (num : UInt32) : CString :=
  .lit "Hardware revision mismatch: fw image hw_rev_id: " ++ .signed num.toInt32.toInt ++
    .lit ", Kconfig: " ++ .signed build.gCfgHwRev.toInt

/-- The error about the version `text` of the image, which differs from that of the signature. -/
def signMismatch (text : CString) : CString :=
  .lit "Image version mismatch: fw image: " ++ text ++ .lit ", Kconfig: " ++
    build.imgtoolSignVersion

/-- The error about the version `text` of the image, which differs from that of the application. -/
def appMismatch (text : CString) : CString :=
  .lit "Image version mismatch: fw image: " ++ text ++ .lit ", App Version: " ++
    build.appVersionTweakString

/-- `fwloader_fw_ver_init` behind the call of `fw_img_print_image_info`. `expected_version_str` is
not initialised. -/
def checkVersions (expectedVersionStr : Buf 32) (g : FwVer build) : Prog printApi Unit := do
  logErrIf (g.gFwImgHwRev.hwRevNum ≠ build.gCfgHwRev.toUInt32)
    (hwRevMismatch build g.gFwImgHwRev.hwRevNum)
  let expected := (expectedVersionStr.snprintf (versionText g.gFwImgFwVer)).toCString
  logInf (.lit "### Ruuvi FwLoader: Image version: " ++ build.imgtoolSignVersion ++
    .lit " (FwInfoCnt: " ++ .decimal build.fwInfoFirmwareVersion ++ .lit ")")
  logErrIf (strcmp expected build.imgtoolSignVersion ≠ 0) (signMismatch build expected)
  logInf (.lit "### Ruuvi FwLoader: Version: " ++ g.fwloaderFwVerGet ++ .lit ", build: " ++
    build.appBuildVersion ++ .lit ", APP_VERSION_NUMBER: " ++ build.appVersionNumber)
  logErrIf (strcmp expected build.appVersionTweakString ≠ 0) (appMismatch build expected)
  logInf (.lit "### Ruuvi FwLoader: Version: " ++ g.fwloaderFwVerGet ++ .lit ", build: " ++
    build.appBuildVersion ++ .lit ", commit: " ++ build.appCommitString)
  logInf (.lit "### Ruuvi FwLoader: NCS version: " ++ build.ncsVersionString ++ .lit ", build: " ++
    build.ncsBuildVersion ++ .lit ", commit: " ++ build.ncsCommitString)
  logInf (.lit "### Ruuvi FwLoader: Kernel version: " ++ build.kernelVersionExtendedString ++
    .lit ", build: " ++ build.buildVersion ++ .lit ", commit: " ++ build.zephyrCommitString)

section

variable (T : RuuviTlvTypes) (ids : FlashAreaIds)

/-- `fwloader_fw_ver_init`: what is in the variables afterwards, or `none` if the function does not
return. The errors that `fw_img_print_image_info` and the functions below it log are left out. -/
def fwloaderFwVerInit (expectedVersionStr : Buf 32) : Prog printApi (Option (FwVer build)) :=
  match Version.fwloaderFwVerInit build.appVersionExtendedString with
  | none => pure none
  | some gFwVerBuf => do
    let res ← fwImgPrintImageInfo T ids .fwloader (some ⟨0, 0, 0, 0⟩) (some ⟨0, .zero _⟩)
    match res with
    | none => pure none
    | some (pFwVer, pHwRev) => do
      let g : FwVer build := ⟨gFwVerBuf, pFwVer.getD ⟨0, 0, 0, 0⟩, pHwRev.getD ⟨0, .zero _⟩⟩
      checkVersions build expectedVersionStr g
      pure (some g)

end

/-! ## What is logged -/

/-- The errors among some calls. -/
def logErrs (es : List (Event printApi)) : List CString :=
  es.filterMap fun
    | ⟨.inr (.logErr text), _⟩ => some text
    | _ => none

theorem logErrs_append (es es' : List (Event printApi)) :
    logErrs (es ++ es') = logErrs es ++ logErrs es' := List.filterMap_append

theorem logErrs_map_inl (es : List (Event imageInfoApi)) : logErrs (es.map Event.inl) = [] := by
  induction es with
  | nil => rfl
  | cons e es ih => exact ih

/-- Whatever the calls answer, these errors are logged. -/
abbrev LogsErrs {α : Type} (errs : List CString) (p : Prog printApi α) : Prop :=
  p.Relates fun es _ => logErrs es = errs

theorem logsErrs_logInf_bind {α : Type} {errs : List CString} {p : Prog printApi α}
    (h : LogsErrs errs p) (text : CString) : LogsErrs errs (logInf text >>= fun _ => p) :=
  Prog.relates_perform_bind fun _ => h

theorem logsErrs_logErrIf_bind {α : Type} {errs : List CString} {p : Prog printApi α}
    (h : LogsErrs errs p) (cond : Prop) [Decidable cond] (text : CString) :
    LogsErrs ((if cond then [text] else []) ++ errs) (logErrIf cond text >>= fun _ => p) := by
  unfold logErrIf
  split
  · refine Prog.relates_perform_bind fun _ => h.mono fun es _ herrs => ?_
    exact congrArg (text :: ·) herrs
  · exact h

/-- The errors about an image of version `v` and revision `num`. -/
def mismatches (v : ImageVersion) (num : UInt32) : List CString :=
  (if num ≠ build.gCfgHwRev.toUInt32 then [hwRevMismatch build num] else []) ++
    ((if versionText v ≠ build.imgtoolSignVersion then [signMismatch build (versionText v)]
      else []) ++
    ((if versionText v ≠ build.appVersionTweakString then [appMismatch build (versionText v)]
      else []) ++ []))

variable {build}

/-- No error is logged exactly if nothing is different. -/
theorem mismatches_eq_nil_iff {v : ImageVersion} {num : UInt32} :
    mismatches build v num = [] ↔ num = build.gCfgHwRev.toUInt32 ∧
      versionText v = build.imgtoolSignVersion ∧ versionText v = build.appVersionTweakString := by
  simp [mismatches]

/-- The text of every version fits into the array, so it is compared as a whole. -/
theorem logsErrs_checkVersions (expectedVersionStr : Buf 32) (g : FwVer build) :
    LogsErrs (mismatches build g.gFwImgFwVer g.gFwImgHwRev.hwRevNum)
      (checkVersions build expectedVersionStr g) := by
  have hexpected : (expectedVersionStr.snprintf (versionText g.gFwImgFwVer)).toCString =
      versionText g.gFwImgFwVer :=
    Buf.toCString_snprintf_of_lt (lt_of_le_of_lt (strlen_versionText_le _) (by omega))
  have hne : ∀ s t : CString, strcmp s t ≠ 0 ↔ s ≠ t := fun s t => not_congr strcmp_eq_zero_iff
  have hlast : LogsErrs [] (logInf (.lit "### Ruuvi FwLoader: Kernel version: " ++
      build.kernelVersionExtendedString ++ .lit ", build: " ++ build.buildVersion ++
      .lit ", commit: " ++ build.zephyrCommitString)) := fun _ => rfl
  unfold checkVersions mismatches
  simp only [hexpected, hne]
  refine logsErrs_logErrIf_bind (logsErrs_logInf_bind ?_ _) _ _
  refine logsErrs_logErrIf_bind (logsErrs_logInf_bind ?_ _) _ _
  exact logsErrs_logErrIf_bind (logsErrs_logInf_bind (logsErrs_logInf_bind hlast _) _) _ _

/-! ## Boot from a flash -/

/-- A flash with several areas, a log, and a memory with the versions of the `struct fw_info`s. -/
def withLog (F : Flash) (fwInfoVer : FwInfoPtr → UInt32) : Handler printApi ℤ :=
  F.handler.sum fun
    | .logInf _ => ()
    | .logErr _ => ()
    | .fwInfoVersion pFwInfo => fwInfoVer pFwInfo

section

variable {T : RuuviTlvTypes} {ids : FlashAreaIds} {F : Flash} {fwInfoVer : FwInfoPtr → UInt32}

/-- What is found out about a slot is stored, and no error is logged. -/
theorem run_fwImgPrintImageInfo (hF : F.Bounded) (fwImgId : FwImgId) (pFwVer : Option ImageVersion)
    (pHwRev : Option FwImageHwRev) (opened : ℤ) :
    ((fwImgPrintImageInfo T ids fwImgId pFwVer pHwRev).run (withLog F fwInfoVer) opened).1 =
        some ((F.report T ids fwImgId).elim (pFwVer, pHwRev) fun p =>
          (pFwVer.map fun _ => p.1.imgHdr.ihVer, pHwRev.map fun _ => p.2)) ∧
      logErrs ((fwImgPrintImageInfo T ids fwImgId pFwVer pHwRev).trace (withLog F fwInfoVer) opened) =
        [] := by
  have hleft : (withLog F fwInfoVer).left = F.handler := Handler.left_sum _ _
  have hrun := @Flash.run_fwImgGetImageInfo_eq F T ids hF fwImgId InfoVars.zero.out opened
  rw [fwImgPrintImageInfo, Prog.run_bind, Prog.trace_bind, logErrs_append, Prog.run_inl,
    Prog.trace_inl, logErrs_map_inl, hleft, hrun]
  rcases F.report T ids fwImgId with _ | ⟨slot, r⟩
  · exact ⟨rfl, rfl⟩
  · exact ⟨rfl, rfl⟩

variable (T ids F) in
/-- The version in the header of the loader's own image and the revision that its area tells. -/
def loaderInfo : ImageVersion × FwImageHwRev :=
  (F.header ids .fwloader).elim (⟨0, 0, 0, 0⟩, ⟨0, .zero _⟩) fun hdr =>
    (hdr.ihVer, F.revision T ids .fwloader)

/-- The version that the loader has been built as is stored with its parts in the new order. -/
theorem exists_fwVerBuf (s : CString) :
    ∃ gFwVerBuf, Version.fwloaderFwVerInit s = some gFwVerBuf ∧
      gFwVerBuf.toCString.strlen = s.strlen ∧ Version.Moved s gFwVerBuf.toCString := by
  obtain ⟨r, hlen, hstores, -, hmoved⟩ := Version.exists_stores s
  obtain ⟨out, hout, rfl⟩ := (hstores _ (.zero (s.strlen + 1))).2 le_rfl
  refine ⟨out, ?_, hlen, hmoved⟩
  rw [Version.fwloaderFwVerInit, Version.semverMoveBuildBeforeExtra, if_neg (by omega), hout]
  rfl

/-- The variables are filled from the flash, and the errors are the differences from the build. -/
theorem run_fwloaderFwVerInit (hF : F.Bounded) (expectedVersionStr : Buf 32) (opened : ℤ)
    {gFwVerBuf : Buf (build.appVersionExtendedString.strlen + 1)}
    (hbuf : Version.fwloaderFwVerInit build.appVersionExtendedString = some gFwVerBuf) :
    ((fwloaderFwVerInit build T ids expectedVersionStr).run (withLog F fwInfoVer) opened).1 =
        some ⟨gFwVerBuf, (loaderInfo T ids F).1, (loaderInfo T ids F).2⟩ ∧
      logErrs ((fwloaderFwVerInit build T ids expectedVersionStr).trace
        (withLog F fwInfoVer) opened) =
          mismatches build (loaderInfo T ids F).1 (loaderInfo T ids F).2.hwRevNum := by
  obtain ⟨hrun, hlog⟩ := @run_fwImgPrintImageInfo T ids F fwInfoVer hF .fwloader
    (some ⟨0, 0, 0, 0⟩) (some ⟨0, .zero _⟩) opened
  -- behind the call the checks run from whatever state it has left
  have hchecks : ∀ (g : FwVer build) (opened : ℤ),
      ((checkVersions build expectedVersionStr g >>= fun _ => pure (some g)).run
        (withLog F fwInfoVer) opened).1 = some g ∧
      logErrs ((checkVersions build expectedVersionStr g >>= fun _ => pure (some g)).trace
        (withLog F fwInfoVer) opened) = mismatches build g.gFwImgFwVer g.gFwImgHwRev.hwRevNum := by
    intro g opened
    rw [Prog.run_bind, Prog.trace_bind, logErrs_append,
      (logsErrs_checkVersions expectedVersionStr g).run]
    exact ⟨rfl, List.append_nil _⟩
  rw [fwloaderFwVerInit, hbuf]
  show (Prog.run _ (fwImgPrintImageInfo T ids .fwloader _ _ >>= _) opened).1 = _ ∧
    logErrs (Prog.trace _ (fwImgPrintImageInfo T ids .fwloader _ _ >>= _) opened) = _
  rw [Prog.run_bind, Prog.trace_bind, logErrs_append, hrun, hlog, List.nil_append, loaderInfo,
    Flash.report]
  rcases F.header ids .fwloader with _ | hdr
  · exact hchecks ⟨gFwVerBuf, ⟨0, 0, 0, 0⟩, ⟨0, .zero _⟩⟩ _
  · exact hchecks ⟨gFwVerBuf, hdr.ihVer, F.revision T ids .fwloader⟩ _

/-- At boot the variables are filled with the version in the header of the loader's own slot and the
revision that its area tells, and `fwloader_fw_ver_init` logs exactly the differences from the build
as errors of its own. -/
theorem fwloaderFwVerInit_checks (hF : F.Bounded) (expectedVersionStr : Buf 32) (opened : ℤ) :
    ∃ g, ((fwloaderFwVerInit build T ids expectedVersionStr).run
        (withLog F fwInfoVer) opened).1 = some g ∧
      g.fwloaderFwVerGet.strlen = build.appVersionExtendedString.strlen ∧
      Version.Moved build.appVersionExtendedString g.fwloaderFwVerGet ∧
      (g.gFwImgFwVer, g.gFwImgHwRev) = loaderInfo T ids F ∧
      logErrs ((fwloaderFwVerInit build T ids expectedVersionStr).trace
        (withLog F fwInfoVer) opened) =
          mismatches build g.gFwImgFwVer g.gFwImgHwRev.hwRevNum := by
  obtain ⟨gFwVerBuf, hbuf, hlen, hmoved⟩ := exists_fwVerBuf build.appVersionExtendedString
  obtain ⟨hrun, herrs⟩ := @run_fwloaderFwVerInit build T ids F fwInfoVer hF expectedVersionStr
    opened gFwVerBuf hbuf
  exact ⟨_, hrun, hlen, hmoved, rfl, herrs⟩

/-- The loader that boots from a signed image logs no error exactly if the image has been signed with
the version and the hardware revision that the loader has been built for. -/
theorem fwloaderFwVerInit_silent_iff {I : SignedImage T} {v : ImageVersion}
    (hF : F.Bounded) (hI : F.HoldsImage ids .fwloader I)
    (hsign : build.imgtoolSignVersion = versionText v)
    (htweak : build.appVersionTweakString = versionText v) (expectedVersionStr : Buf 32)
    (opened : ℤ) :
    logErrs ((fwloaderFwVerInit build T ids expectedVersionStr).trace
        (withLog F fwInfoVer) opened) = [] ↔
      I.hdr.ihVer = v ∧ I.hwRev.num = build.gCfgHwRev.toUInt32 := by
  obtain ⟨gFwVerBuf, hbuf, -, -⟩ := exists_fwVerBuf build.appVersionExtendedString
  obtain ⟨-, herrs⟩ := @run_fwloaderFwVerInit build T ids F fwInfoVer hF expectedVersionStr opened
    gFwVerBuf hbuf
  have hinfo : loaderInfo T ids F = (I.hdr.ihVer, F.revision T ids .fwloader) := by
    rw [loaderInfo, Flash.header_signed hI]
    rfl
  rw [herrs, mismatches_eq_nil_iff, hinfo, hsign, htweak, and_self,
    versionText_injective.eq_iff, ← (Flash.revision_signed hF hI).1, and_comm]

theorem fwloaderFwVerInit_onlyCalls (expectedVersionStr : Buf 32) :
    (fwloaderFwVerInit build T ids expectedVersionStr).OnlyCalls NotNull := by
  unfold fwloaderFwVerInit
  cases Version.fwloaderFwVerInit build.appVersionExtendedString with
  | none => exact Prog.onlyCalls_pure _
  | some gFwVerBuf =>
    apply (fwImgPrintImageInfo_notNull _ _ _).bind
    intro res
    rcases res with _ | ⟨pFwVer, pHwRev⟩
    · exact Prog.onlyCalls_pure _
    · have hlog : ∀ text, (logInf text).OnlyCalls NotNull := fun _ => ⟨trivial, fun _ => trivial⟩
      have hlogIf : ∀ (c : Prop) [Decidable c] text, (logErrIf c text).OnlyCalls NotNull :=
        fun c _ text => Prog.onlyCalls_ite (fun _ => ⟨trivial, fun _ => trivial⟩) fun _ => trivial
      refine Prog.OnlyCalls.bind ?_ fun _ => Prog.onlyCalls_pure _
      unfold checkVersions
      refine (hlogIf _ _).bind fun _ => (hlog _).bind fun _ => ?_
      refine (hlogIf _ _).bind fun _ => (hlog _).bind fun _ => ?_
      exact (hlogIf _ _).bind fun _ => (hlog _).bind fun _ => (hlog _).bind fun _ => hlog _

/-- Whatever the flash answers, `p_fw_info->version` is not read through a NULL pointer. -/
theorem fwloaderFwVerInit_notNull {σ : Type} (expectedVersionStr : Buf 32)
    (H : Handler printApi σ) (s : σ) :
    .inr (.fwInfoVersion none) ∉
      ((fwloaderFwVerInit build T ids expectedVersionStr).trace H s).map Event.call := by
  rw [List.mem_map]
  rintro ⟨e, he, hcall⟩
  have hnot : NotNull e.call := (fwloaderFwVerInit_onlyCalls expectedVersionStr).trace H s e he
  rw [hcall] at hnot
  exact hnot rfl

end

/-! ## A build -/

/-- A build of version 1.2.3+4 for the second hardware revision. -/
def sampleBuild : Build where
  gCfgHwRev := 2
  appVersionExtendedString := .lit "1.2.3-dev+4"
  imgtoolSignVersion := versionText ⟨1, 2, 3, 4⟩
  fwInfoFirmwareVersion := 1
  appBuildVersion := .lit "v1.2.3"
  appVersionNumber := .lit "0x010203"
  appVersionTweakString := versionText ⟨1, 2, 3, 4⟩
  appCommitString := .lit "0"
  ncsVersionString := .lit "3.0.0"
  ncsBuildVersion := .lit "v3.0.0"
  ncsCommitString := .lit "0"
  kernelVersionExtendedString := .lit "4.0.99"
  buildVersion := .lit "v4.0.99"
  zephyrCommitString := .lit "0"

/-- Of an image of another hardware revision this is logged; without the slot, everything differs. -/
theorem fwloaderFwVerInit_checks_sample :
    (∃ g, ((fwloaderFwVerInit sampleBuild sampleTypes sampleIds (.zero 32)).run
        (withLog sampleFlash fun _ => 1) 0).1 = some g ∧
      g.fwloaderFwVerGet.strlen = 11 ∧ g.gFwImgFwVer = ⟨1, 2, 3, 4⟩ ∧ g.gFwImgHwRev.hwRevNum = 7 ∧
      logErrs ((fwloaderFwVerInit sampleBuild sampleTypes sampleIds (.zero 32)).trace
        (withLog sampleFlash fun _ => 1) 0) =
          [.lit "Hardware revision mismatch: fw image hw_rev_id: 7, Kconfig: 2"]) ∧
    ∃ g, ((fwloaderFwVerInit sampleBuild sampleTypes sampleIds (.zero 32)).run
        (withLog (.without 2) fun _ => 1) 0).1 = some g ∧
      g.gFwImgFwVer = ⟨0, 0, 0, 0⟩ ∧ g.gFwImgHwRev.hwRevNum = 0 ∧
      logErrs ((fwloaderFwVerInit sampleBuild sampleTypes sampleIds (.zero 32)).trace
        (withLog (.without 2) fun _ => 1) 0) =
          [.lit "Hardware revision mismatch: fw image hw_rev_id: 0, Kconfig: 2",
            .lit "Image version mismatch: fw image: 0.0.0+0, Kconfig: 1.2.3+4",
            .lit "Image version mismatch: fw image: 0.0.0+0, App Version: 1.2.3+4"] := by
  obtain ⟨g, hrun, hlen, -, hinfo, herrs⟩ := @fwloaderFwVerInit_checks sampleBuild sampleTypes
    sampleIds sampleFlash (fun _ => 1) sampleFlash_bounded (.zero 32) 0
  obtain ⟨g', hrun', -, -, hinfo', herrs'⟩ := @fwloaderFwVerInit_checks sampleBuild sampleTypes
    sampleIds (.without 2) (fun _ => 1) (Flash.without_bounded 2) (.zero 32) 0
  have hsample : loaderInfo sampleTypes sampleIds sampleFlash = (⟨1, 2, 3, 4⟩, ⟨7, .zero _⟩) := by
    decide
  have hlost : loaderInfo sampleTypes sampleIds (.without 2) = (⟨0, 0, 0, 0⟩, ⟨0, .zero _⟩) := by
    decide
  obtain ⟨hver, hrev⟩ := Prod.mk.inj (hinfo.trans hsample)
  obtain ⟨hver', hrev'⟩ := Prod.mk.inj (hinfo'.trans hlost)
  rw [hver, hrev] at herrs
  rw [hver', hrev'] at herrs'
  refine ⟨⟨g, hrun, hlen.trans (by decide), hver, by rw [hrev], herrs.trans (by decide)⟩, g', hrun',
    hver', by rw [hrev'], herrs'.trans (by decide)⟩

/-- The sample image is one of this build. -/
theorem fwloaderFwVerInit_silent_iff_sample :
    logErrs ((fwloaderFwVerInit sampleBuild sampleTypes sampleIds (.zero 32)).trace
      (withLog signedFlash fun _ => 1) 0) = [] :=
  (fwloaderFwVerInit_silent_iff signedFlash_bounded (signedFlash_holdsImage (by decide)) rfl rfl
    (.zero 32) 0).mpr (by decide)

end FwLoader.Boot
