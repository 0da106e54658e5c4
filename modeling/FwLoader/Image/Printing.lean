import FwLoader.Foundations.CMemory
import FwLoader.Foundations.Formats
import FwLoader.Image.Slots

/-!
# Images in the log

`fw_img_print_image_info` logs what there is to report of a slot. It goes through the pointer to the
`struct fw_info` that `fw_img_get_image_info` has stored, which is never NULL. The text of a version
tells the version.
-/

namespace FwLoader.Image

open Foundations

/-! ## Versions as texts -/

/-- `"%u.%u.%u+%u"` -/
def versionText (v : ImageVersion) : CString :=
  .decimal v.ivMajor.toNat ++ .lit "." ++ .decimal v.ivMinor.toNat ++ .lit "." ++
    .decimal v.ivRevision.toNat ++ .lit "+" ++ .decimal v.ivBuildNum.toNat

/-- The bytes of the text, split at the separators. -/
theorem bytes_versionText (v : ImageVersion) :
    (versionText v).bytes = (CString.decimal v.ivMajor.toNat).bytes ++ 0x2E ::
      ((CString.decimal v.ivMinor.toNat).bytes ++ 0x2E ::
        ((CString.decimal v.ivRevision.toNat).bytes ++ 0x2B ::
          (CString.decimal v.ivBuildNum.toNat).bytes)) := by
  have hdot : (CString.lit ".").bytes = [0x2E] := by decide
  have hplus : (CString.lit "+").bytes = [0x2B] := by decide
  simp only [versionText, CString.bytes_append, hdot, hplus, List.append_assoc, List.cons_append,
    List.nil_append]

theorem notMem_decimal {c : UInt8} (hc : ¬CString.IsDigit c) (n : ℕ) :
    c ∉ (CString.decimal n).bytes := fun h => hc (CString.isDigit_of_mem_decimalBytes h)

/-- Versions with the same text are the same. -/
theorem versionText_injective : Function.Injective versionText := by
  intro v w h
  have hdot : ¬CString.IsDigit 0x2E := by decide
  have hplus : ¬CString.IsDigit 0x2B := by decide
  have hbytes := congrArg CString.bytes h
  rw [bytes_versionText, bytes_versionText] at hbytes
  obtain ⟨hmajor, -, hbytes⟩ :=
    append_cons_inj (notMem_decimal hdot _) (notMem_decimal hdot _) hbytes
  obtain ⟨hminor, -, hbytes⟩ :=
    append_cons_inj (notMem_decimal hdot _) (notMem_decimal hdot _) hbytes
  obtain ⟨hrevision, -, hbuild⟩ :=
    append_cons_inj (notMem_decimal hplus _) (notMem_decimal hplus _) hbytes
  have hnum : ∀ {m n : ℕ}, (CString.decimal m).bytes = (CString.decimal n).bytes → m = n :=
    fun hmn => CString.decimal_injective (CString.ext hmn)
  obtain ⟨major, minor, revision, buildNum⟩ := v
  obtain ⟨major', minor', revision', buildNum'⟩ := w
  obtain rfl : major = major' := UInt8.toNat_inj.mp (hnum hmajor)
  obtain rfl : minor = minor' := UInt8.toNat_inj.mp (hnum hminor)
  obtain rfl : revision = revision' := UInt16.toNat_inj.mp (hnum hrevision)
  obtain rfl : buildNum = buildNum' := UInt32.toNat_inj.mp (hnum hbuild)
  rfl

/-- The text of a version is at most 24 bytes long. -/
theorem strlen_versionText_le (v : ImageVersion) : (versionText v).strlen ≤ 24 := by
  have hmajor : (CString.decimal v.ivMajor.toNat).strlen ≤ 3 :=
    CString.strlen_decimal_le (by omega) (v.ivMajor.toNat_lt.trans (by norm_num))
  have hminor : (CString.decimal v.ivMinor.toNat).strlen ≤ 3 :=
    CString.strlen_decimal_le (by omega) (v.ivMinor.toNat_lt.trans (by norm_num))
  have hrevision : (CString.decimal v.ivRevision.toNat).strlen ≤ 5 :=
    CString.strlen_decimal_le (by omega) (v.ivRevision.toNat_lt.trans (by norm_num))
  have hbuild : (CString.decimal v.ivBuildNum.toNat).strlen ≤ 10 :=
    CString.strlen_decimal_le (by omega) (v.ivBuildNum.toNat_lt.trans (by norm_num))
  have hdot : (CString.lit ".").strlen = 1 := by decide
  have hplus : (CString.lit "+").strlen = 1 := by decide
  simp only [versionText, CString.strlen_append, hdot, hplus]
  omega

/-! ## The variables that are filled -/

/-- The local variables that the callers of `fw_img_get_image_info` pass the addresses of. -/
structure InfoVars where
  fwVer : ImageVersion
  pFwInfo : FwInfoPtr
  hwRev : FwImageHwRev

namespace InfoVars

/-- As they are initialised. -/
def zero : InfoVars := ⟨⟨0, 0, 0, 0⟩, none, ⟨0, .zero _⟩⟩

/-- `&fw_ver`, `&p_fw_info` and `&hw_rev`, none of which is NULL. -/
def out (vars : InfoVars) : ImageInfoOut := ⟨some vars.fwVer, some vars.pFwInfo, some vars.hwRev⟩

/-- The variables after a call that their addresses have been passed to. -/
def after (vars : InfoVars) (out : ImageInfoOut) : InfoVars where
  fwVer := out.pFwVer.getD vars.fwVer
  pFwInfo := out.ppFwInfo.getD vars.pFwInfo
  hwRev := out.pHwRev.getD vars.hwRev

end InfoVars

/-! ## The log -/

/-- The calls of the log, and the access to `p_fw_info->version`. -/
inductive LogCall
  | logInf (text : CString)
  | logErr (text : CString)
  | fwInfoVersion (pFwInfo : FwInfoPtr)
deriving DecidableEq

abbrev logApi : Interface where
  Call := LogCall
  Answer
    | .logInf _ => Unit
    | .logErr _ => Unit
    | .fwInfoVersion _ => UInt32

/-- The calls that `fw_img_print_image_info` makes. -/
abbrev printApi : Interface := imageInfoApi.sum logApi

def logInf (text : CString) : Prog printApi Unit := @Prog.perform printApi (.inr (.logInf text))

def logErr (text : CString) : Prog printApi Unit := @Prog.perform printApi (.inr (.logErr text))

def fwInfoVersion (pFwInfo : FwInfoPtr) : Prog printApi UInt32 :=
  @Prog.perform printApi (.inr (.fwInfoVersion pFwInfo))

/-- The line that `fw_img_print_image_info` logs. -/
def imageInfoText (faId : ℤ) (vars : InfoVars) (fwInfoVer : UInt32) : CString :=
  .lit "### Flash area " ++ .signed faId ++ .lit ": Image version: v" ++ versionText vars.fwVer ++
    .lit ", FwInfoVer: " ++ .decimal fwInfoVer.toNat ++ .lit ", HwRev: ID=" ++
    .decimal vars.hwRev.hwRevNum.toNat ++ .lit ", name='" ++ vars.hwRev.hwRevName.toCString ++
    .lit "' ###"

/-- `fw_img_print_image_info`: what the two pointers of its caller point to afterwards. -/
def fwImgPrintImageInfo (T : RuuviTlvTypes) (ids : FlashAreaIds) (fwImgId : FwImgId)
    (pFwVer : Option ImageVersion) (pHwRev : Option FwImageHwRev) :
    Prog printApi (Option (Option ImageVersion × Option FwImageHwRev)) := do
  let res ← (fwImgGetImageInfo T ids fwImgId InfoVars.zero.out).inl
  match res with
  | none => pure none
  | some (ok, out) =>
    if ok = false then
      pure (some (pFwVer, pHwRev))
    else do
      let vars := InfoVars.zero.after out
      let fwInfoVer ← fwInfoVersion vars.pFwInfo
      logInf (imageInfoText (faIdFromFwImgId ids fwImgId) vars fwInfoVer)
      pure (some (pFwVer.map fun _ => vars.fwVer, pHwRev.map fun _ => vars.hwRev))

/-! ## The pointer -/

section

variable {T : RuuviTlvTypes} {ids : FlashAreaIds}

theorem fwImgFindSlot_ensures_ptr (fwImgId : FwImgId) :
    (fwImgFindSlot ids fwImgId).Ensures fun res => ∀ slot, res = some slot → slot.pFwInfo ≠ none := by
  unfold fwImgFindSlot
  refine Prog.ensures_ite (fun _ => nofun) fun _ => ?_
  apply (Prog.ensures_true _).bind
  intro addressAndSize _
  rcases addressAndSize with _ | ⟨faAddr, faSize⟩
  · exact nofun
  · refine Prog.ensures_perform_bind fun pFwInfo => ?_
    refine Prog.ensures_ite (fun _ => nofun) fun hptr => ?_
    apply (Prog.ensures_true _).bind
    rintro imgHdr - slot hslot
    obtain ⟨hdr, -, rfl⟩ := Option.map_eq_some_iff.mp hslot
    exact hptr

/-- When `fw_img_get_image_info` succeeds, it has stored a pointer that is not NULL. -/
theorem fwImgGetImageInfo_ensures_ptr (fwImgId : FwImgId) (out : ImageInfoOut) :
    (fwImgGetImageInfo T ids fwImgId out).Ensures fun res => ∀ out', res = some (true, out') →
      ∃ pFwInfo ≠ none, out'.ppFwInfo = out.ppFwInfo.map fun _ => pFwInfo := by
  apply (fwImgFindSlot_ensures_ptr fwImgId).bind
  intro slot hptr
  cases slot with
  | none => exact nofun
  | some slot =>
    apply (Prog.ensures_true _).bind
    rintro res - out' hout
    obtain ⟨found, -, hfound⟩ := Option.map_eq_some_iff.mp hout
    obtain rfl := (Prod.ext_iff.mp hfound).2
    exact ⟨slot.pFwInfo, hptr slot rfl, rfl⟩

/-- A call that does not go through a NULL pointer. -/
def NotNull : printApi.Call → Prop
  | .inr (.fwInfoVersion pFwInfo) => pFwInfo ≠ none
  | _ => True

theorem fwImgPrintImageInfo_notNull (fwImgId : FwImgId) (pFwVer : Option ImageVersion)
    (pHwRev : Option FwImageHwRev) :
    (fwImgPrintImageInfo T ids fwImgId pFwVer pHwRev).OnlyCalls NotNull := by
  unfold fwImgPrintImageInfo
  have hcalls : (fwImgGetImageInfo T ids fwImgId InfoVars.zero.out).inl.OnlyCalls NotNull :=
    (Prog.onlyCalls_true _).inl
  apply hcalls.bind_ensures (fwImgGetImageInfo_ensures_ptr fwImgId InfoVars.zero.out).inl
  intro res hptr
  rcases res with _ | ⟨ok, out⟩
  · exact Prog.onlyCalls_pure _
  refine Prog.onlyCalls_ite (fun _ => Prog.onlyCalls_pure _) fun hok => ?_
  obtain rfl : ok = true := by simpa using hok
  obtain ⟨pFwInfo, hne, hstored⟩ := hptr out rfl
  refine Prog.onlyCalls_perform_bind ?_ fun fwInfoVer => ?_
  · show out.ppFwInfo.getD none ≠ none
    rw [hstored]
    exact hne
  · exact Prog.onlyCalls_perform_bind trivial fun _ => Prog.onlyCalls_pure _

end

end FwLoader.Image
