import FwLoader.Foundations.Interfaces
import FwLoader.Image.Bounds

/-!
# What is reported of an image

`fw_img_get_image_info` finds out about a slot of the flash and stores what it has found where the
pointers of its caller point to. It scans the slot for the revision without looking at how that
went: a scan that fails half-way leaves a half in the revision, and it is stored all the same.
-/

namespace FwLoader.Image

open Foundations

/-- `fw_img_id_e`. The values that no enumerator has are `other`. -/
inductive FwImgId
  | app
  | fwloader
  | mcuboot0
  | mcuboot1
  | other (value : ℤ)
deriving DecidableEq

/-- The IDs that the partition manager gives to the slots, and `FA_ID_INVALID`. -/
structure FlashAreaIds where
  mcubootPrimary : ℤ
  mcubootSecondary : ℤ
  s0 : ℤ
  s1 : ℤ
  faIdInvalid : ℤ

/-- `fa_id_from_fw_img_id` -/
def faIdFromFwImgId (ids : FlashAreaIds) : FwImgId → ℤ
  | .app => ids.mcubootPrimary
  | .fwloader => ids.mcubootSecondary
  | .mcuboot0 => ids.s0
  | .mcuboot1 => ids.s1
  | .other _ => ids.faIdInvalid

/-- A `const struct fw_info*`: an address, or NULL. -/
abbrev FwInfoPtr := Option UInt32

/-- What is asked about a slot besides its contents. -/
inductive SlotCall
  | flashAreaGetOff
  | flashAreaGetSize
  | fwInfoFind (faAddr : UInt32)
deriving DecidableEq

/-- The descriptions of the slots. -/
abbrev slotApi : Interface where
  Call := SlotCall
  Answer
    | .flashAreaGetOff => UInt32
    | .flashAreaGetSize => UInt32
    | .fwInfoFind _ => FwInfoPtr

/-- The calls that `fw_img_get_image_info` makes. -/
abbrev imageInfoApi : Interface := flashApi.sum slotApi

def flashAreaGetOff : Prog imageInfoApi UInt32 :=
  @Prog.perform imageInfoApi (.inr .flashAreaGetOff)

def flashAreaGetSize : Prog imageInfoApi UInt32 :=
  @Prog.perform imageInfoApi (.inr .flashAreaGetSize)

def fwInfoFind (faAddr : UInt32) : Prog imageInfoApi FwInfoPtr :=
  @Prog.perform imageInfoApi (.inr (.fwInfoFind faAddr))

/-- `get_flash_area_address_and_size`: the address and the size, or `none` for `false`. -/
def getFlashAreaAddressAndSize (faId : ℤ) : Prog imageInfoApi (Option (UInt32 × UInt32)) := do
  let rc ← (flashAreaOpen faId).inl
  if rc ≠ 0 then
    pure none
  else do
    let faAddr ← flashAreaGetOff
    let faSize ← flashAreaGetSize
    flashAreaClose.inl
    pure (some (faAddr, faSize))

/-- `load_image_header`: the header, or `none` for `false`. -/
def loadImageHeader (faId : ℤ) : Prog imageInfoApi (Option ImageHeader) := do
  let rc ← (flashAreaOpen faId).inl
  if rc ≠ 0 then
    pure none
  else do
    let h ← bootImageLoadHeader.inl
    flashAreaClose.inl
    pure (if h.rc ≠ 0 then none else some h.hdr)

/-- `fa_id`, `p_fw_info` and `img_hdr` of `fw_img_get_image_info`. -/
structure Slot where
  faId : ℤ
  pFwInfo : FwInfoPtr
  imgHdr : ImageHeader

/-- `fw_img_get_image_info` in front of the scan. `none` where it returns `false`. -/
def fwImgFindSlot (ids : FlashAreaIds) (fwImgId : FwImgId) : Prog imageInfoApi (Option Slot) :=
  let faId := faIdFromFwImgId ids fwImgId
  if ids.faIdInvalid = faId then
    pure none
  else do
    let addressAndSize ← getFlashAreaAddressAndSize faId
    match addressAndSize with
    | none => pure none
    | some (faAddr, _) =>
      let pFwInfo ← fwInfoFind faAddr
      if pFwInfo = none then
        pure none
      else do
        let imgHdr ← loadImageHeader faId
        pure (imgHdr.map fun imgHdr => ⟨faId, pFwInfo, imgHdr⟩)

/-- What the pointers of the caller point to; `none` for a pointer that is NULL. -/
structure ImageInfoOut where
  pFwVer : Option ImageVersion
  ppFwInfo : Option FwInfoPtr
  pHwRev : Option FwImageHwRev
deriving DecidableEq

/-- What has been found is stored where a pointer is not NULL. -/
def ImageInfoOut.store (out : ImageInfoOut) (slot : Slot) (hwRev : FwImageHwRev) :
    ImageInfoOut where
  pFwVer := out.pFwVer.map fun _ => slot.imgHdr.ihVer
  ppFwInfo := out.ppFwInfo.map fun _ => slot.pFwInfo
  pHwRev := out.pHwRev.map fun _ => hwRev

section

variable (T : RuuviTlvTypes) (ids : FlashAreaIds)

/-- `fw_img_get_image_info`: the result and what the pointers point to afterwards. -/
def fwImgGetImageInfo (fwImgId : FwImgId) (out : ImageInfoOut) :
    Prog imageInfoApi (Option (Bool × ImageInfoOut)) := do
  let slot ← fwImgFindSlot ids fwImgId
  match slot with
  | none => pure (some (false, out))
  | some slot =>
    -- `res.1`, whether the scan has succeeded, is not looked at
    let res ← (fwImgHwRevFindInFlashArea T slot.faId ⟨0, .zero _⟩).inl
    pure (res.map fun res => (true, out.store slot res.2))

end

/-! ## The halves that a scan delivers -/

section

/-- The answers of the reads among some calls. -/
def readAnswers (es : List (Event flashApi)) : List ReadAnswer :=
  es.filterMap fun
    | ⟨.flashAreaRead _ _, a⟩ => some a
    | _ => none

variable (T : RuuviTlvTypes)

/-- The answers of the reads of a TLV loop, sorted: the headers of the two types, each with the
answer to the read of its value. `tlv` is the header read before. -/
def valuesRead : ImageTlv → List ReadAnswer → List (ImageTlv × ReadAnswer)
  | _, [] => []
  | _, [_] => []
  | tlv, h :: v :: as =>
    if IsRevisionType T (tlv.load h.bytes).itType then
      (tlv.load h.bytes, v) :: valuesRead (tlv.load h.bytes) as
    else
      valuesRead (tlv.load h.bytes) (v :: as)

/-- The revision behind the read of a value: an ID is taken if it has been read without an error, a
name as far as it has been read. -/
def FwImageHwRev.keep (r : FwImageHwRev) (v : ImageTlv × ReadAnswer) : FwImageHwRev :=
  if v.1.itType = T.hwRevId then
    if v.2.rc = 0 then { r with hwRevNum := u32FromBytesBe ((Buf.zero 4).write v.2.bytes) } else r
  else if v.2.rc = 0 then
    { r with hwRevName := (r.hwRevName.write v.2.bytes).set v.1.itLen.toNat 0 }
  else { r with hwRevName := r.hwRevName.write v.2.bytes }

/-- The revision that the reads of values make up. -/
def revisionRead (vs : List (ImageTlv × ReadAnswer)) : FwImageHwRev :=
  vs.foldl (FwImageHwRev.keep T) ⟨0, .zero _⟩

/-- A read has delivered an ID: it succeeded and what it read is not zero. -/
def DeliversId (v : ImageTlv × ReadAnswer) : Prop :=
  v.1.itType = T.hwRevId ∧ v.2.rc = 0 ∧ u32FromBytesBe ((Buf.zero 4).write v.2.bytes) ≠ 0

/-- A read has put the beginning of a name into the buffer, be it before an error. -/
def DeliversName (v : ImageTlv × ReadAnswer) : Prop :=
  v.1.itType = T.hwRevName ∧ v.2.bytes.headD 0 ≠ 0 ∧ (v.2.rc = 0 → v.1.itLen ≠ 0)

instance : DecidablePred (DeliversId T) := fun _ => inferInstanceAs (Decidable (_ ∧ _))

instance : DecidablePred (DeliversName T) := fun _ => inferInstanceAs (Decidable (_ ∧ _))

/-- The reads of values have delivered neither half, or both of them and each name without an
error. -/
def NoneOrBoth (vs : List (ImageTlv × ReadAnswer)) : Prop :=
  ((∀ v ∈ vs, ¬DeliversId T v) ∧ ∀ v ∈ vs, ¬DeliversName T v) ∨
    (∃ v ∈ vs, DeliversId T v) ∧ (∃ v ∈ vs, DeliversName T v) ∧
      ∀ v ∈ vs, DeliversName T v → v.2.rc = 0

instance (vs : List (ImageTlv × ReadAnswer)) : Decidable (NoneOrBoth T vs) :=
  inferInstanceAs (Decidable (_ ∨ _))

end

/-! ## What a scan makes of the answers -/

section

variable {T : RuuviTlvTypes}

/-- The values `vs` have been read into a revision: each field that is set now was set before, or
has been delivered. -/
structure FillsIn (T : RuuviTlvTypes) (vs : List (ImageTlv × ReadAnswer))
    (r r' : FwImageHwRev) : Prop where
  kept : r' = vs.foldl (FwImageHwRev.keep T) r
  num : r'.hwRevNum ≠ 0 ↔ r.hwRevNum ≠ 0 ∨ ∃ v ∈ vs, DeliversId T v
  name : r'.hwRevName.first ≠ 0 ↔ r.hwRevName.first ≠ 0 ∨ ∃ v ∈ vs, DeliversName T v

/-- Each name that has been delivered was read without an error. -/
def InFull (T : RuuviTlvTypes) (vs : List (ImageTlv × ReadAnswer)) : Prop :=
  ∀ v ∈ vs, DeliversName T v → v.2.rc = 0

theorem FillsIn.refl (r : FwImageHwRev) : FillsIn T [] r r := ⟨rfl, by simp, by simp⟩

theorem FillsIn.append {vs ws : List (ImageTlv × ReadAnswer)} {r r' r'' : FwImageHwRev}
    (h : FillsIn T vs r r') (h' : FillsIn T ws r' r'') : FillsIn T (vs ++ ws) r r'' where
  kept := by rw [List.foldl_append, ← h.kept, h'.kept]
  num := by
    simp only [List.mem_append, or_and_right, exists_or]
    rw [h'.num, h.num, or_assoc]
  name := by
    simp only [List.mem_append, or_and_right, exists_or]
    rw [h'.name, h.name, or_assoc]

/-- The first byte of a name that a read has been stored into. -/
theorem first_write_ne_iff {b : Buf (fwInfoHwRevNameMaxLen + 1)} {new : List UInt8}
    (h : b.first = 0) : (b.write new).first ≠ 0 ↔ new.headD 0 ≠ 0 := by
  cases new with
  | nil => simp [h]
  | cons c cs => rw [Buf.first_write_cons (by decide), List.headD_cons]

/-- What a handler has done with a TLV of the header `tlv`: `es` are its calls. It has read the
value at most once, and not at all unless the type asks for it. -/
structure Handles (T : RuuviTlvTypes) (tlv : ImageTlv) (r : FwImageHwRev)
    (es : List (Event flashApi)) (res : Bool × FwImageHwRev) : Prop where
  reads : readAnswers es = [] ∨ IsRevisionType T tlv.itType ∧ ∃ v, readAnswers es = [v]
  fillsIn : FillsIn T ((readAnswers es).map fun v => (tlv, v)) r res.2
  ok : res.1 = true → InFull T ((readAnswers es).map fun v => (tlv, v)) ∧
    (IsRevisionType T tlv.itType → readAnswers es ≠ [])
  failed : res.1 = false → ¬(res.2.Complete ∧ InFull T ((readAnswers es).map fun v => (tlv, v)))

theorem handleTlvHwRevIdInFlashArea_relates {tlv : ImageTlv} {off : ℕ} {r : FwImageHwRev}
    (htype : T.hwRevId = tlv.itType) (hr : ¬r.Complete) :
    (handleTlvHwRevIdInFlashArea tlv off r).Relates (Handles T tlv r) := by
  have hrev : IsRevisionType T tlv.itType := .inl htype
  have hname : ∀ v, ¬DeliversName T (tlv, v) := fun v hv => T.id_ne_name (htype.trans hv.1)
  have hrefuses : Handles T tlv r [] (false, r) :=
    ⟨.inl rfl, .refl r, fun h => absurd h (by simp), fun _ h => hr h.1⟩
  unfold handleTlvHwRevIdInFlashArea
  refine Prog.relates_ite (fun _ => hrefuses) fun _ => ?_
  refine Prog.relates_ite (fun _ => hrefuses) fun hzero => ?_
  refine Prog.relates_perform_bind fun a => Prog.relates_ite (fun hrc => ?_) fun hrc => ?_
  · refine ⟨.inr ⟨hrev, a, rfl⟩, ⟨?_, ?_, ?_⟩, fun h => absurd h (by simp), fun _ h => hr h.1⟩
    · exact ((if_pos htype.symm).trans (if_neg hrc)).symm
    · simp [readAnswers, DeliversId, hrc]
    · simp [readAnswers, hname]
  · refine ⟨.inr ⟨hrev, a, rfl⟩, ⟨?_, ?_, ?_⟩, fun _ => ⟨?_, fun _ => by simp [readAnswers]⟩,
      fun h => absurd h (by simp)⟩
    · exact ((if_pos htype.symm).trans (if_pos (not_not.mp hrc))).symm
    · simp [readAnswers, DeliversId, htype, not_not.mp hrc, not_not.mp hzero]
    · simp [readAnswers, hname]
    · simp [InFull, readAnswers, hname]

theorem handleTlvHwRevNameInFlashArea_relates {tlv : ImageTlv} {off : ℕ} {r : FwImageHwRev}
    (htype : T.hwRevName = tlv.itType) (hr : ¬r.Complete) :
    (handleTlvHwRevNameInFlashArea tlv off r).Relates (Handles T tlv r) := by
  have hrev : IsRevisionType T tlv.itType := .inr htype
  have hno : tlv.itType ≠ T.hwRevId := fun h => T.id_ne_name (h.symm.trans htype.symm)
  have hid : ∀ v, ¬DeliversId T (tlv, v) := fun v hv => hno hv.1
  have hrefuses : Handles T tlv r [] (false, r) :=
    ⟨.inl rfl, .refl r, fun h => absurd h (by simp), fun _ h => hr h.1⟩
  unfold handleTlvHwRevNameInFlashArea
  refine Prog.relates_ite (fun _ => hrefuses) fun _ => ?_
  refine Prog.relates_ite (fun _ => hrefuses) fun hzero => ?_
  have hfirst : r.hwRevName.first = 0 := not_not.mp hzero
  refine Prog.relates_perform_bind fun a => Prog.relates_ite (fun hrc => ?_) fun hrc => ?_
  · have hdelivers : DeliversName T (tlv, a) ↔ (r.hwRevName.write a.bytes).first ≠ 0 := by
      rw [first_write_ne_iff hfirst]
      simp [DeliversName, htype, hrc]
    refine ⟨.inr ⟨hrev, a, rfl⟩, ⟨?_, ?_, ?_⟩, fun h => absurd h (by simp), fun _ h => hrc ?_⟩
    · exact ((if_neg hno).trans (if_neg hrc)).symm
    · simp [readAnswers, hid]
    · simp [readAnswers, hdelivers, hfirst]
    -- a name that completes the revision has been cut short by the error
    · exact h.2 (tlv, a) (by simp [readAnswers]) (hdelivers.mpr h.1.1)
  · have hrc' : a.rc = 0 := not_not.mp hrc
    have hafter : ((r.hwRevName.write a.bytes).set tlv.itLen.toNat 0).first ≠ 0 ↔
        a.bytes.headD 0 ≠ 0 ∧ tlv.itLen ≠ 0 := by
      by_cases hlen : tlv.itLen = 0
      · simp [hlen, Buf.first_set_zero_zero]
      · rw [Buf.first_set_of_ne fun h => hlen (UInt16.toNat_inj.mp h), first_write_ne_iff hfirst]
        simp [hlen]
    refine ⟨.inr ⟨hrev, a, rfl⟩, ⟨?_, ?_, ?_⟩, fun _ => ⟨?_, fun _ => by simp [readAnswers]⟩,
      fun h => absurd h (by simp)⟩
    · exact ((if_neg hno).trans (if_pos hrc')).symm
    · simp [readAnswers, hid]
    · rw [hafter]
      simp [readAnswers, DeliversName, htype, hrc', hfirst]
    · simp [InFull, readAnswers, hrc']

/-- The values that a round has read come first among the values of the loop. -/
theorem valuesRead_cons_append {tlv : ImageTlv} {h : ReadAnswer} {vs : List ReadAnswer}
    (hvs : vs = [] ∧ ¬IsRevisionType T (tlv.load h.bytes).itType ∨
      IsRevisionType T (tlv.load h.bytes).itType ∧ ∃ v, vs = [v]) (as : List ReadAnswer) :
    valuesRead T tlv (h :: vs ++ as) =
      vs.map (fun v => (tlv.load h.bytes, v)) ++ valuesRead T (tlv.load h.bytes) as := by
  rcases hvs with ⟨rfl, hno⟩ | ⟨hrev, v, rfl⟩
  · cases as with
    | nil => rfl
    | cons a as => exact if_neg hno
  · exact if_pos hrev

theorem fwImgHwRevHandleTlvHwRevInFlashArea_relates (tlv : ImageTlv) (off : ℕ) {r : FwImageHwRev}
    (hr : ¬r.Complete) :
    (fwImgHwRevHandleTlvHwRevInFlashArea T tlv off r).Relates (Handles T tlv r) := by
  unfold fwImgHwRevHandleTlvHwRevInFlashArea
  by_cases hid : T.hwRevId = tlv.itType
  · have hname : T.hwRevName ≠ tlv.itType := fun h => T.id_ne_name (hid.trans h.symm)
    rw [if_pos hid]
    apply (handleTlvHwRevIdInFlashArea_relates hid hr).bind
    intro es res hres
    have hres' : Handles T tlv r (es ++ []) res := by rwa [List.append_nil]
    refine Prog.relates_ite (fun _ => hres') fun _ => ?_
    exact Prog.relates_ite (absurd · hname) fun _ => hres'
  · rw [if_neg hid]
    show Prog.Relates _ (if T.hwRevName = tlv.itType then handleTlvHwRevNameInFlashArea tlv off r
      else pure (true, r))
    refine Prog.relates_ite (fun hname => handleTlvHwRevNameInFlashArea_relates hname hr)
      fun hname => ?_
    have hno : ¬IsRevisionType T tlv.itType := by
      rintro (h | h)
      · exact hid h
      · exact hname h
    refine ⟨.inl rfl, .refl r, fun _ => ⟨?_, fun h => absurd h hno⟩, fun h => absurd h (by simp)⟩
    exact fun v hv => absurd hv List.not_mem_nil

/-! ## The scan -/

/-- What the loop has read in the calls `es` when a round begins with `st`. -/
structure Scanned (T : RuuviTlvTypes) (tlv : ImageTlv) (r : FwImageHwRev)
    (es : List (Event flashApi)) (st : ScanState) : Prop where
  incomplete : ¬st.hwRev.Complete
  read : ∃ vs, (∀ as, valuesRead T tlv (readAnswers es ++ as) = vs ++ valuesRead T st.tlv as) ∧
    FillsIn T vs r st.hwRev ∧ InFull T vs

/-- What the loop has read in the calls `es` when it returns `res`. -/
def Returns (T : RuuviTlvTypes) (tlv : ImageTlv) (r : FwImageHwRev) (es : List (Event flashApi)) :
    Option (Bool × FwImageHwRev) → Prop
  | none => True
  | some (isSuccess, r') => FillsIn T (valuesRead T tlv (readAnswers es)) r r' ∧
      (isSuccess = true ↔ r'.Complete ∧ InFull T (valuesRead T tlv (readAnswers es)))

theorem InFull.append_iff {vs ws : List (ImageTlv × ReadAnswer)} :
    InFull T (vs ++ ws) ↔ InFull T vs ∧ InFull T ws := List.forall_mem_append

theorem readAnswers_append (es es' : List (Event flashApi)) :
    readAnswers (es ++ es') = readAnswers es ++ readAnswers es' := List.filterMap_append

/-- A round that leaves the loop after the calls `es'`. -/
theorem Scanned.returns {tlv : ImageTlv} {r r' : FwImageHwRev} {es es' : List (Event flashApi)}
    {st : ScanState} {isSuccess : Bool} (h : Scanned T tlv r es st)
    (hfills : FillsIn T (valuesRead T st.tlv (readAnswers es')) st.hwRev r')
    (hres : isSuccess = true ↔ r'.Complete ∧ InFull T (valuesRead T st.tlv (readAnswers es'))) :
    Returns T tlv r (es ++ es') (some (isSuccess, r')) := by
  obtain ⟨vs, hread, hvs, hfull⟩ := h.read
  have hvalues := hread (readAnswers es')
  rw [← readAnswers_append] at hvalues
  refine ⟨?_, ?_⟩
  · rw [hvalues]
    exact hvs.append hfills
  · rw [hvalues, InFull.append_iff, hres]
    exact and_congr_right fun _ => (and_iff_right hfull).symm

theorem flashScanBody_relates {tlvsEndOff : ℕ} {tlv : ImageTlv} {r : FwImageHwRev}
    {es : List (Event flashApi)} {st : ScanState} (h : Scanned T tlv r es st) :
    (flashScanBody T tlvsEndOff st).Relates fun es' =>
      Sum.elim (Scanned T tlv r (es ++ es')) fun res => Returns T tlv r (es ++ es') (some res) := by
  have hrefuses : ∀ es', valuesRead T st.tlv (readAnswers es') = [] →
      Returns T tlv r (es ++ es') (some (false, st.hwRev)) := fun es' hnil =>
    h.returns (by rw [hnil]; exact .refl _)
      ⟨fun h => absurd h (by simp), fun hc => absurd hc.1 h.incomplete⟩
  unfold flashScanBody
  refine Prog.relates_ite (fun _ => ?_) fun _ => Prog.relates_pure (hrefuses [] rfl)
  refine Prog.relates_perform_bind fun a => Prog.relates_ite (fun _ => hrefuses _ rfl) fun _ => ?_
  apply (fwImgHwRevHandleTlvHwRevInFlashArea_relates _ _ h.incomplete).bind
  intro es₁ res hres
  have hanswers :
      readAnswers (⟨FlashCall.flashAreaRead st.dataOff ImageTlv.size, a⟩ :: (es₁ ++ [])) =
        a :: readAnswers es₁ := by
    rw [List.append_nil]
    rfl
  have hvalues : valuesRead T st.tlv (a :: readAnswers es₁) =
      (readAnswers es₁).map fun v => (st.tlv.load a.bytes, v) := by
    rcases hres.reads with hnil | ⟨hrev, v, hv⟩
    · rw [hnil]
      rfl
    · rw [hv]
      exact if_pos hrev
  -- a handler that has failed, one that has completed the revision, and one that has not
  refine Prog.relates_ite (fun hno => ?_) fun hyes => Prog.relates_ite (fun hc => ?_) fun hc => ?_
  · refine h.returns ?_ ?_
    · rw [hanswers, hvalues]
      exact hres.fillsIn
    · rw [hanswers, hvalues]
      exact ⟨fun h => absurd h (by simp), fun h => absurd h (hres.failed hno)⟩
  · have hok := hres.ok (by simpa using hyes)
    refine h.returns ?_ ?_
    · rw [hanswers, hvalues]
      exact hres.fillsIn
    · rw [hanswers, hvalues]
      exact ⟨fun _ => ⟨hc, hok.1⟩, fun _ => rfl⟩
  · have hok := hres.ok (by simpa using hyes)
    obtain ⟨vs, hread, hvs, hfull⟩ := h.read
    refine ⟨hc, _, fun as => ?_, hvs.append hres.fillsIn, InFull.append_iff.mpr ⟨hfull, hok.1⟩⟩
    have hsplit : readAnswers es₁ = [] ∧ ¬IsRevisionType T (st.tlv.load a.bytes).itType ∨
        IsRevisionType T (st.tlv.load a.bytes).itType ∧ ∃ v, readAnswers es₁ = [v] :=
      hres.reads.imp_left fun hnil => ⟨hnil, fun hrev => hok.2 hrev hnil⟩
    rw [readAnswers_append, List.append_assoc, hread, hanswers, valuesRead_cons_append hsplit,
      List.append_assoc]

theorem relates_loop_flashScanBody (tlvsEndOff off n : ℕ) (tlv : ImageTlv) {r : FwImageHwRev}
    (hr : ¬r.Complete) :
    (Prog.loop (flashScanBody T tlvsEndOff) n ⟨off, tlv, r⟩).Relates (Returns T tlv r) := by
  have hstart : Scanned T tlv r [] ⟨off, tlv, r⟩ :=
    ⟨hr, [], fun _ => rfl, .refl r, fun v hv => absurd hv List.not_mem_nil⟩
  exact Prog.relates_loop (I := Scanned T tlv r) (R := Returns T tlv r)
    (fun es st => flashScanBody_relates) (fun es => trivial) hstart

/-- What a scan has read in the calls `es` when it returns: the answer to its first read is the info
header. -/
def ScanReturns (T : RuuviTlvTypes) (r : FwImageHwRev) (es : List (Event flashApi)) :
    Option (Bool × FwImageHwRev) → Prop
  | none => True
  | some (isSuccess, r') =>
    FillsIn T (valuesRead T .zero (readAnswers es).tail) r r' ∧
      (isSuccess = true ↔ r'.Complete ∧ InFull T (valuesRead T .zero (readAnswers es).tail))

theorem scanReturns_of_failed {r : FwImageHwRev} {es : List (Event flashApi)} (hr : ¬r.Complete)
    (hes : (readAnswers es).tail = []) : ScanReturns T r es (some (false, r)) := by
  rw [ScanReturns, hes]
  exact ⟨.refl r, fun h => absurd h (by simp), fun h => absurd h.1 hr⟩

theorem fwImgHwRevFindInFlashAreaInternal_relates {r : FwImageHwRev} (hr : ¬r.Complete) :
    (fwImgHwRevFindInFlashAreaInternal T r).Relates (ScanReturns T r) := by
  unfold fwImgHwRevFindInFlashAreaInternal
  refine Prog.relates_perform_bind fun h => Prog.relates_ite (fun _ => ?_) fun _ => ?_
  · exact scanReturns_of_failed hr rfl
  have hinfo : ∀ off, (findTlvsInFlashArea imageTlvProtInfoMagic off).Relates fun es _ =>
      ∃ a, readAnswers es = [a] := by
    intro off
    unfold findTlvsInFlashArea
    exact Prog.relates_perform_bind fun a => Prog.relates_ite (fun _ => ⟨a, rfl⟩) fun _ =>
      Prog.relates_ite (fun _ => ⟨a, rfl⟩) fun _ => ⟨a, rfl⟩
  refine (hinfo _).bind fun es tlvs ⟨a, ha⟩ => ?_
  cases tlvs with
  | none =>
    refine scanReturns_of_failed hr ?_
    show (readAnswers (es ++ [])).tail = []
    rw [List.append_nil, ha, List.tail_cons]
  | some tlvs =>
    have hloop := relates_loop_flashScanBody (T := T) tlvs.2 tlvs.1 tlvLoopRounds .zero hr
    apply hloop.mono
    intro es' res hres
    have hes : (readAnswers (⟨FlashCall.bootImageLoadHeader, h⟩ :: (es ++ es'))).tail =
        readAnswers es' := by
      show (readAnswers (es ++ es')).tail = _
      rw [readAnswers_append, ha]
      rfl
    cases res with
    | none => trivial
    | some res => rwa [ScanReturns, hes]

theorem fwImgHwRevFindInFlashArea_relates (faId : ℤ) (r : FwImageHwRev) :
    (fwImgHwRevFindInFlashArea T faId r).Relates (ScanReturns T r.reset) := by
  have hr : ¬r.reset.Complete := fun h => h.2 rfl
  unfold fwImgHwRevFindInFlashArea
  refine Prog.relates_perform_bind fun rc => Prog.relates_ite (fun _ => ?_) fun _ => ?_
  · exact scanReturns_of_failed hr rfl
  apply (fwImgHwRevFindInFlashAreaInternal_relates hr).bind
  intro es res hres
  refine Prog.relates_perform_bind fun _ => Prog.relates_pure ?_
  have hes : readAnswers (⟨FlashCall.flashAreaOpen faId, rc⟩ ::
      (es ++ [⟨FlashCall.flashAreaClose, ()⟩])) = readAnswers es := by
    show readAnswers (es ++ _) = _
    rw [readAnswers_append]
    exact List.append_nil _
  cases res with
  | none => trivial
  | some res => rwa [ScanReturns, hes]

end

/-! ## All or nothing -/

/-- The headers that are loaded in some calls, each with the area that has been opened last. -/
def headersLoaded : Option ℤ → List (Event imageInfoApi) → List (Option ℤ × LoadHeaderAnswer)
  | _, [] => []
  | _, ⟨.inl (.flashAreaOpen faId), _⟩ :: es => headersLoaded (some faId) es
  | opened, ⟨.inl .bootImageLoadHeader, h⟩ :: es => (opened, h) :: headersLoaded opened es
  | opened, _ :: es => headersLoaded opened es

section

variable {σ : Type} (T : RuuviTlvTypes) (ids : FlashAreaIds) (H : Handler imageInfoApi σ) (s : σ)

/-- The values that the scan reads while `fw_img_get_image_info` runs. -/
def scannedValues (fwImgId : FwImgId) (out : ImageInfoOut) : List (ImageTlv × ReadAnswer) :=
  valuesRead T .zero
    (readAnswers (((fwImgGetImageInfo T ids fwImgId out).trace H s).filterMap Event.left?)).tail

/-- The calls `es` end with a scan of the area, which succeeds with the revision `r`. -/
def ScansTo (faId : ℤ) (es : List (Event imageInfoApi)) (r : FwImageHwRev) : Prop :=
  ∃ es₁ s', es = es₁ ++ ((fwImgHwRevFindInFlashArea T faId ⟨0, .zero _⟩).trace H.left s').map
      Event.inl ∧
    ((fwImgHwRevFindInFlashArea T faId ⟨0, .zero _⟩).run H.left s').1 = some (true, r)

/-- What a call should have done that has returned `ok` and has left `out'` behind. Where it fails,
nothing has been stored. Where it does not, the version is the one in the first answer of
`boot_image_load_header`, which is about the area of the slot, and the revision is empty, or is the
complete one that the reads of the scan make up and the scan has succeeded with. -/
def AllOrNothing (fwImgId : FwImgId) (out : ImageInfoOut) (ok : Bool) (out' : ImageInfoOut) :
    Prop :=
  (ok = false → out' = out) ∧
    (ok = true →
      (∃ h, (headersLoaded none ((fwImgGetImageInfo T ids fwImgId out).trace H s)).head? =
          some (some (faIdFromFwImgId ids fwImgId), h) ∧
        h.rc = 0 ∧ out'.pFwVer = out.pFwVer.map fun _ => h.hdr.ihVer) ∧
      (out'.pHwRev = none ↔ out.pHwRev = none) ∧
      ∀ r, out'.pHwRev = some r →
        r.Complete ∧ r = revisionRead T (scannedValues T ids H s fwImgId out) ∧
            ScansTo T H (faIdFromFwImgId ids fwImgId)
              ((fwImgGetImageInfo T ids fwImgId out).trace H s) r ∨
          r.found = .none)

end

section

variable {σ : Type} {T : RuuviTlvTypes} {ids : FlashAreaIds} {H : Handler imageInfoApi σ} {s : σ}

/-- A call other than a read of the flash. -/
def NoRead : imageInfoApi.Call → Prop
  | .inl (.flashAreaRead _ _) => False
  | _ => True

theorem onlyCalls_fwImgFindSlot (fwImgId : FwImgId) :
    (fwImgFindSlot ids fwImgId).OnlyCalls NoRead := by
  have hopen : ∀ faId, (flashAreaOpen faId).inl.OnlyCalls NoRead := fun faId =>
    Prog.OnlyCalls.inl ⟨trivial, fun _ => trivial⟩
  have hclose : flashAreaClose.inl.OnlyCalls NoRead :=
    Prog.OnlyCalls.inl ⟨trivial, fun _ => trivial⟩
  have hload : bootImageLoadHeader.inl.OnlyCalls NoRead :=
    Prog.OnlyCalls.inl ⟨trivial, fun _ => trivial⟩
  have haddr : ∀ faId, (getFlashAreaAddressAndSize faId).OnlyCalls NoRead := by
    intro faId
    unfold getFlashAreaAddressAndSize
    refine (hopen faId).bind fun rc => Prog.onlyCalls_ite (fun _ => trivial) fun _ => ?_
    apply Prog.onlyCalls_perform_bind trivial
    intro faAddr
    apply Prog.onlyCalls_perform_bind trivial
    intro faSize
    exact hclose.bind fun _ => trivial
  have hheader : ∀ faId, (loadImageHeader faId).OnlyCalls NoRead := by
    intro faId
    unfold loadImageHeader
    refine (hopen faId).bind fun rc => Prog.onlyCalls_ite (fun _ => trivial) fun _ => ?_
    apply hload.bind
    intro h
    exact hclose.bind fun _ => trivial
  unfold fwImgFindSlot
  refine Prog.onlyCalls_ite (fun _ => trivial) fun _ => (haddr _).bind fun addressAndSize => ?_
  cases addressAndSize with
  | none => trivial
  | some addressAndSize =>
    apply Prog.onlyCalls_perform_bind trivial
    intro pFwInfo
    exact Prog.onlyCalls_ite (fun _ => trivial) fun _ => (hheader _).bind fun _ => trivial

/-- Calls that load no header. -/
def LoadsNone (es : List (Event imageInfoApi)) : Prop :=
  ∀ opened es', ∃ opened', headersLoaded opened (es ++ es') = headersLoaded opened' es'

/-- Calls that load a header of the area first, with the answer `h`. -/
def LoadsFirst (faId : ℤ) (h : LoadHeaderAnswer) (es : List (Event imageInfoApi)) : Prop :=
  ∀ opened es', ∃ rest, headersLoaded opened (es ++ es') = (some faId, h) :: rest

theorem LoadsNone.append {es es' : List (Event imageInfoApi)} (h : LoadsNone es)
    (h' : LoadsNone es') : LoadsNone (es ++ es') := by
  intro opened es''
  obtain ⟨opened', hes⟩ := h opened (es' ++ es'')
  obtain ⟨opened'', hes'⟩ := h' opened' es''
  exact ⟨opened'', by rw [List.append_assoc, hes, hes']⟩

theorem LoadsNone.append_first {faId : ℤ} {a : LoadHeaderAnswer}
    {es es' : List (Event imageInfoApi)} (h : LoadsNone es) (h' : LoadsFirst faId a es') :
    LoadsFirst faId a (es ++ es') := by
  intro opened es''
  obtain ⟨opened', hes⟩ := h opened (es' ++ es'')
  obtain ⟨rest, hes'⟩ := h' opened' es''
  exact ⟨rest, by rw [List.append_assoc, hes, hes']⟩

theorem getFlashAreaAddressAndSize_relates (faId : ℤ) :
    (getFlashAreaAddressAndSize faId).Relates fun es _ => LoadsNone es := by
  unfold getFlashAreaAddressAndSize
  refine Prog.relates_perform_bind fun rc => Prog.relates_ite (fun _ => ?_) fun _ => ?_
  · exact fun _ es' => ⟨some faId, rfl⟩
  · exact fun _ _ _ _ es' => ⟨some faId, rfl⟩

theorem loadImageHeader_relates (faId : ℤ) :
    (loadImageHeader faId).Relates fun es imgHdr => ∀ hdr, imgHdr = some hdr →
      LoadsFirst faId ⟨0, hdr⟩ es := by
  unfold loadImageHeader
  refine Prog.relates_perform_bind fun rc => Prog.relates_ite (fun _ => nofun) fun _ => ?_
  intro h _ hdr hhdr
  obtain ⟨hrc, hsome⟩ := Option.ite_none_left_eq_some.mp hhdr
  obtain rfl := Option.some.inj hsome
  obtain ⟨rc, hdr⟩ := h
  obtain rfl : rc = 0 := not_not.mp hrc
  exact fun _ es' => ⟨_, rfl⟩

/-- The slot that is found is the one that was asked for, and its header is the first one that has
been loaded. -/
theorem fwImgFindSlot_relates (fwImgId : FwImgId) :
    (fwImgFindSlot ids fwImgId).Relates fun es res => ∀ slot, res = some slot →
      slot.faId = faIdFromFwImgId ids fwImgId ∧ LoadsFirst slot.faId ⟨0, slot.imgHdr⟩ es := by
  unfold fwImgFindSlot
  refine Prog.relates_ite (fun _ => nofun) fun _ => ?_
  apply (getFlashAreaAddressAndSize_relates _).bind
  intro es addressAndSize hes
  cases addressAndSize with
  | none => exact nofun
  | some addressAndSize =>
    refine Prog.relates_perform_bind fun pFwInfo => Prog.relates_ite (fun _ => nofun) fun _ => ?_
    apply (loadImageHeader_relates _).bind
    intro es' imgHdr hes' slot hslot
    obtain ⟨hdr, hhdr, rfl⟩ := Option.map_eq_some_iff.mp hslot
    refine ⟨rfl, hes.append_first fun opened es'' => ?_⟩
    rw [List.append_nil]
    exact hes' hdr hhdr opened es''

theorem readAnswers_of_noRead {es : List (Event imageInfoApi)} (h : ∀ e ∈ es, NoRead e.call) :
    readAnswers (es.filterMap Event.left?) = [] := by
  induction es with
  | nil => rfl
  | cons e es ih =>
    obtain ⟨he, hes⟩ := List.forall_mem_cons.mp h
    obtain ⟨c | c, a⟩ := e
    · cases c with
      | flashAreaRead off len => exact absurd he id
      | _ => exact ih hes
    · exact ih hes

theorem found_eq_none_iff (r : FwImageHwRev) :
    r.found = .none ↔ r.hwRevNum = 0 ∧ r.hwRevName.first = 0 := by
  rw [FwImageHwRev.found, Found.none, Found.mk.injEq, Buf.cStr_eq_nil_iff, ← UInt32.toNat_inj]
  rfl

/-- A revision that a scan has filled in is complete and the scan a success, or it is empty, exactly
if the scan has been given neither half or both. -/
theorem noneOrBoth_iff {r r' : FwImageHwRev} {isSuccess : Bool} {es : List (Event flashApi)}
    (hr : r.found = .none) (h : ScanReturns T r es (some (isSuccess, r'))) :
    (r'.Complete ∧ isSuccess = true ∨ r'.found = .none) ↔
      NoneOrBoth T (valuesRead T .zero (readAnswers es).tail) := by
  obtain ⟨hfills, hsuccess⟩ := h
  obtain ⟨hnum, hname⟩ := (found_eq_none_iff r).mp hr
  have hid : r'.hwRevNum ≠ 0 ↔ ∃ v ∈ valuesRead T .zero (readAnswers es).tail, DeliversId T v :=
    hfills.num.trans (or_iff_right (not_not_intro hnum))
  have hnm : r'.hwRevName.first ≠ 0 ↔
      ∃ v ∈ valuesRead T .zero (readAnswers es).tail, DeliversName T v :=
    hfills.name.trans (or_iff_right (not_not_intro hname))
  have hnoId := not_congr hid
  have hnoName := not_congr hnm
  push Not at hnoId hnoName
  rw [found_eq_none_iff, hsuccess, NoneOrBoth, ← hnoId, ← hnoName, ← hid, ← hnm]
  constructor
  · rintro (⟨hc, -, hfull⟩ | hempty)
    · exact .inr ⟨hc.2, hc.1, hfull⟩
    · exact .inl hempty
  · rintro (hempty | ⟨hnumSet, hnameSet, hfull⟩)
    · exact .inr hempty
    · exact .inl ⟨⟨hnameSet, hnumSet⟩, ⟨hnameSet, hnumSet⟩, hfull⟩

theorem findInFlashArea_returns {H : FlashDevice σ} {areaSize : ℕ}
    (hbounds : FlashBounds H areaSize) (faId : ℤ) (r : FwImageHwRev) (s : σ) :
    ∃ res, ((fwImgHwRevFindInFlashArea T faId r).run H s).1 = some res := by
  unfold fwImgHwRevFindInFlashArea
  rw [Prog.run_bind, Prog.run_ite]
  split
  · exact ⟨_, rfl⟩
  · rw [Prog.run_bind]
    exact (flash_scanBounds hbounds _ _).returns

/-- Where the slot is not found, `fw_img_get_image_info` does nothing more. -/
theorem run_fwImgGetImageInfo_of_none {fwImgId : FwImgId} {s' : σ} (out : ImageInfoOut)
    (h : (fwImgFindSlot ids fwImgId).run H s = (none, s')) :
    ((fwImgGetImageInfo T ids fwImgId out).run H s).1 = some (false, out) ∧
      scannedValues T ids H s fwImgId out = [] := by
  refine ⟨?_, ?_⟩
  · rw [fwImgGetImageInfo, Prog.run_bind, h]
    rfl
  · rw [scannedValues, fwImgGetImageInfo, Prog.trace_bind, h]
    show valuesRead T .zero (readAnswers (List.filterMap Event.left? (_ ++ []))).tail = []
    rw [List.append_nil, readAnswers_of_noRead ((onlyCalls_fwImgFindSlot fwImgId).trace H s)]
    rfl

/-- Where the slot is found, `fw_img_get_image_info` stores what the scan leaves. -/
theorem run_fwImgGetImageInfo_of_some {fwImgId : FwImgId} {slot : Slot} {s' : σ}
    (out : ImageInfoOut) (h : (fwImgFindSlot ids fwImgId).run H s = (some slot, s')) :
    ((fwImgGetImageInfo T ids fwImgId out).run H s).1 =
        ((fwImgHwRevFindInFlashArea T slot.faId ⟨0, .zero _⟩).run H.left s').1.map
          (fun res => (true, out.store slot res.2)) ∧
      (fwImgGetImageInfo T ids fwImgId out).trace H s = (fwImgFindSlot ids fwImgId).trace H s ++
        ((fwImgHwRevFindInFlashArea T slot.faId ⟨0, .zero _⟩).trace H.left s').map Event.inl := by
  refine ⟨?_, ?_⟩
  · rw [fwImgGetImageInfo, Prog.run_bind, h]
    show (((fwImgHwRevFindInFlashArea T slot.faId ⟨0, .zero _⟩).inl >>= _).run H s').1 = _
    rw [Prog.run_bind, Prog.run_inl]
    rfl
  · rw [fwImgGetImageInfo, Prog.trace_bind, h]
    show _ ++ ((fwImgHwRevFindInFlashArea T slot.faId ⟨0, .zero _⟩).inl >>= _).trace H s' = _
    rw [Prog.trace_bind, Prog.trace_pure, List.append_nil, Prog.trace_inl]

/-- The values are read by the scan. -/
theorem scannedValues_of_some {fwImgId : FwImgId} {slot : Slot} {s' : σ} (out : ImageInfoOut)
    (h : (fwImgFindSlot ids fwImgId).run H s = (some slot, s')) :
    scannedValues T ids H s fwImgId out = valuesRead T .zero (readAnswers
      ((fwImgHwRevFindInFlashArea T slot.faId ⟨0, .zero _⟩).trace H.left s')).tail := by
  rw [scannedValues, (run_fwImgGetImageInfo_of_some out h).2, List.filterMap_append,
    Event.filterMap_left?_map_inl, readAnswers_append,
    readAnswers_of_noRead ((onlyCalls_fwImgFindSlot fwImgId).trace H s), List.nil_append]

/-- A call that opens no area. -/
def NoOpen (c : FlashCall) : Prop := ∀ faId, c ≠ .flashAreaOpen faId

theorem onlyCalls_flashScanBody (tlvsEndOff : ℕ) (st : ScanState) :
    (flashScanBody T tlvsEndOff st).OnlyCalls NoOpen := by
  unfold flashScanBody
  refine Prog.onlyCalls_ite (fun _ => ?_) fun _ => trivial
  refine Prog.onlyCalls_perform_bind nofun fun a => Prog.onlyCalls_ite (fun _ => trivial) fun _ => ?_
  refine Prog.OnlyCalls.bind ?_ fun res => ?_
  · apply (onlyCalls_handleTlvInFlashArea _ _ _).mono
    rintro _ ⟨len, rfl⟩ faId
    exact nofun
  · exact Prog.onlyCalls_ite (fun _ => trivial) fun _ =>
      Prog.onlyCalls_ite (fun _ => trivial) fun _ => trivial

theorem onlyCalls_findInternal (r : FwImageHwRev) :
    (fwImgHwRevFindInFlashAreaInternal T r).OnlyCalls NoOpen := by
  unfold fwImgHwRevFindInFlashAreaInternal
  refine Prog.onlyCalls_perform_bind nofun fun h => Prog.onlyCalls_ite (fun _ => trivial) fun _ => ?_
  have htlvs : ∀ off, (findTlvsInFlashArea imageTlvProtInfoMagic off).OnlyCalls NoOpen := by
    intro off
    unfold findTlvsInFlashArea
    refine Prog.onlyCalls_perform_bind nofun fun a => ?_
    exact Prog.onlyCalls_ite (fun _ => trivial) fun _ =>
      Prog.onlyCalls_ite (fun _ => trivial) fun _ => trivial
  apply (htlvs _).bind
  intro tlvs
  cases tlvs with
  | none => trivial
  | some tlvs => exact Prog.OnlyCalls.loop (onlyCalls_flashScanBody _) _ _

/-- A scan begins by opening the area, and opens none afterwards. -/
theorem exists_trace_findInFlashArea (H : Handler flashApi σ) (faId : ℤ) (s : σ) :
    ∃ rc es, (fwImgHwRevFindInFlashArea T faId ⟨0, .zero _⟩).trace H s =
      ⟨FlashCall.flashAreaOpen faId, rc⟩ :: es ∧ ∀ e ∈ es, NoOpen e.call := by
  refine ⟨_, _, rfl, Prog.OnlyCalls.trace ?_ _ _⟩
  refine Prog.onlyCalls_ite (fun _ => trivial) fun _ => ?_
  exact (onlyCalls_findInternal _).bind fun _ => Prog.onlyCalls_perform_bind nofun fun _ => trivial

/-- The last scan among some calls is determined by them. -/
theorem scan_eq_of_append {faId : ℤ} {es es' : List (Event imageInfoApi)} {s' s'' : σ}
    (h : es ++ ((fwImgHwRevFindInFlashArea T faId ⟨0, .zero _⟩).trace H.left s').map Event.inl =
      es' ++ ((fwImgHwRevFindInFlashArea T faId ⟨0, .zero _⟩).trace H.left s'').map Event.inl) :
    ((fwImgHwRevFindInFlashArea T faId ⟨0, .zero _⟩).run H.left s').1 =
      ((fwImgHwRevFindInFlashArea T faId ⟨0, .zero _⟩).run H.left s'').1 := by
  obtain ⟨rc, t, ht, hopen⟩ := exists_trace_findInFlashArea (T := T) H.left faId s'
  obtain ⟨rc', t', ht', hopen'⟩ := exists_trace_findInFlashArea (T := T) H.left faId s''
  have hnot : ∀ {t : List (Event flashApi)}, (∀ e ∈ t, NoOpen e.call) → ∀ rc,
      (Event.inl ⟨.flashAreaOpen faId, rc⟩ : Event imageInfoApi) ∉ t.map Event.inl := by
    intro t ht rc hmem
    obtain ⟨e, he, heq⟩ := List.mem_map.mp hmem
    rw [Event.inl_injective heq] at he
    exact ht _ he faId rfl
  apply Prog.run_eq_of_trace_eq
  rw [ht, ht'] at h ⊢
  -- seen from the end, the first call that opens an area begins the scan
  have hrev := congrArg List.reverse h
  simp only [List.map_cons, List.reverse_append, List.reverse_cons, List.append_assoc,
    List.singleton_append] at hrev
  obtain ⟨htail, hhead, -⟩ := append_cons_inj (fun h => hnot hopen rc' (List.mem_reverse.mp h))
    (fun h => hnot hopen' rc (List.mem_reverse.mp h)) hrev
  rw [Event.inl_injective hhead, Event.inl_injective.list_map (List.reverse_injective htail)]

/-- What has been stored of a slot is what it should be, if the revision is not asked for or is one
of the two that are allowed. -/
theorem allOrNothing_store_iff {fwImgId : FwImgId} {slot : Slot} {s' : σ} (out : ImageInfoOut)
    {isSuccess : Bool} {r : FwImageHwRev}
    (hslot : (fwImgFindSlot ids fwImgId).run H s = (some slot, s'))
    (hscan : ((fwImgHwRevFindInFlashArea T slot.faId ⟨0, .zero _⟩).run H.left s').1 =
      some (isSuccess, r)) :
    AllOrNothing T ids H s fwImgId out true (out.store slot r) ↔
      out.pHwRev = none ∨ (r.Complete ∧ isSuccess = true ∨ r.found = .none) := by
  obtain ⟨-, htrace⟩ := run_fwImgGetImageInfo_of_some (T := T) out hslot
  have hfound := (@fwImgFindSlot_relates ids fwImgId).run H s
  rw [hslot] at hfound
  obtain ⟨hfaId, hheader⟩ := hfound slot rfl
  rw [AllOrNothing, htrace, ← hfaId]
  constructor
  · rintro ⟨-, hall⟩
    obtain ⟨-, -, hrev⟩ := hall rfl
    apply or_iff_not_imp_left.mpr
    intro hp
    obtain ⟨old, hold⟩ := Option.ne_none_iff_exists'.mp hp
    have hstored : (out.store slot r).pHwRev = some r := by
      rw [ImageInfoOut.store, hold]
      rfl
    refine (hrev r hstored).imp_left fun ⟨hc, _, es₁, s'', hes, hsuccess⟩ => ⟨hc, ?_⟩
    rw [← scan_eq_of_append hes, hscan] at hsuccess
    exact congrArg Prod.fst (Option.some.inj hsuccess)
  · intro hrev
    refine ⟨fun h => absurd h (by simp), fun _ => ⟨?_, Option.map_eq_none_iff, fun r' hr' => ?_⟩⟩
    · obtain ⟨rest, hrest⟩ := hheader none
        (((fwImgHwRevFindInFlashArea T slot.faId ⟨0, .zero _⟩).trace H.left s').map Event.inl)
      exact ⟨_, congrArg List.head? hrest, rfl, rfl⟩
    · obtain ⟨old, hold, rfl⟩ := Option.map_eq_some_iff.mp hr'
      refine (hrev.resolve_left (by simp [hold])).imp_left fun ⟨hc, hsuccess⟩ => ?_
      have hreturns := (fwImgHwRevFindInFlashArea_relates (T := T) slot.faId ⟨0, .zero _⟩).run
        H.left s'
      rw [hscan] at hreturns
      refine ⟨hc, ?_, _, s', rfl, by rw [hscan, hsuccess]⟩
      rw [scannedValues_of_some out hslot]
      exact hreturns.1.kept

/-- In every environment, `fw_img_get_image_info` reports all or nothing exactly if it is not asked
for the revision, or the scan is given neither half or both. It returns if the flash is what it
should be. -/
theorem imageInfo_allOrNothing_iff (T : RuuviTlvTypes) (ids : FlashAreaIds)
    (H : Handler imageInfoApi σ) (s : σ) (fwImgId : FwImgId) (out : ImageInfoOut) :
    (∀ areaSize, FlashBounds H.left areaSize →
        ∃ res, ((fwImgGetImageInfo T ids fwImgId out).run H s).1 = some res) ∧
      ∀ ok out', ((fwImgGetImageInfo T ids fwImgId out).run H s).1 = some (ok, out') →
        (AllOrNothing T ids H s fwImgId out ok out' ↔
          out.pHwRev = none ∨ NoneOrBoth T (scannedValues T ids H s fwImgId out)) := by
  rcases hslot : (fwImgFindSlot ids fwImgId).run H s with ⟨_ | slot, s'⟩
  · obtain ⟨hrun, hvalues⟩ := run_fwImgGetImageInfo_of_none (T := T) out hslot
    rw [hrun, hvalues]
    refine ⟨fun _ _ => ⟨_, rfl⟩, fun ok out' h => ?_⟩
    obtain ⟨rfl, rfl⟩ := Prod.mk.inj (Option.some.inj h)
    refine ⟨fun _ => .inr (.inl ⟨?_, ?_⟩), fun _ => ⟨fun _ => rfl, fun h => absurd h (by simp)⟩⟩
    · exact fun v hv => absurd hv List.not_mem_nil
    · exact fun v hv => absurd hv List.not_mem_nil
  · obtain ⟨hrun, -⟩ := run_fwImgGetImageInfo_of_some (T := T) out hslot
    rw [hrun, scannedValues_of_some out hslot]
    refine ⟨fun areaSize hbounds => ?_, fun ok out' h => ?_⟩
    · obtain ⟨res, hres⟩ := findInFlashArea_returns (T := T) hbounds slot.faId ⟨0, .zero _⟩ s'
      exact ⟨_, congrArg _ hres⟩
    obtain ⟨⟨isSuccess, r⟩, hscan, hout⟩ := Option.map_eq_some_iff.mp h
    obtain ⟨rfl, rfl⟩ := Prod.mk.inj hout
    have hrelates := fwImgHwRevFindInFlashArea_relates (T := T) slot.faId ⟨0, .zero _⟩
    have hreturns := hrelates.run H.left s'
    rw [hscan] at hreturns
    rw [← noneOrBoth_iff (FwImageHwRev.found_reset _) hreturns]
    exact allOrNothing_store_iff out hslot hscan

end

/-! ## A slot with one half -/

/-- A slot that holds `B` and a `struct fw_info`. -/
def slotOfBytes (B : List UInt8) : Oracle imageInfoApi
  | .inl c => FlashArea.ofBytes B c
  | .inr .flashAreaGetOff => (0x8000 : UInt32)
  | .inr .flashAreaGetSize => UInt32.ofNat B.length
  | .inr (.fwInfoFind faAddr) => some (faAddr + 0x200)

/-- IDs that the slots may have. -/
def sampleIds : FlashAreaIds := ⟨1, 2, 3, 4, -1⟩

/-- An image with a revision number and a name. -/
def twoHalves : List UInt8 :=
  imageWith 17 ([0xA0, 0, 4, 0, 0, 0, 0, 7] ++ [0xA1, 0, 1, 0, 65])

/-- An image with a revision number only. -/
def oneHalf : List UInt8 := imageWith 12 [0xA0, 0, 4, 0, 0, 0, 0, 7]

/-- What is there before a call that asks for everything. -/
def sampleOut : ImageInfoOut :=
  ⟨some ⟨9, 8, 7, 6⟩, some none, some ⟨3, (Buf.zero _).write [0x5A, 0x5A]⟩⟩

/-- Of an image with both halves all is reported. -/
theorem imageInfo_allOrNothing_sample :
    ∃ out', ((fwImgGetImageInfo sampleTypes sampleIds .app sampleOut).run
        (Prog.handler (slotOfBytes twoHalves)) ()).1 = some (true, out') ∧
      out' = ⟨some ⟨1, 2, 3, 4⟩, some (some 0x8200), some ⟨7, (Buf.zero _).write [65]⟩⟩ ∧
      AllOrNothing sampleTypes sampleIds (Prog.handler (slotOfBytes twoHalves)) () .app sampleOut
        true out' :=
  have hrun : ((fwImgGetImageInfo sampleTypes sampleIds .app sampleOut).run
      (Prog.handler (slotOfBytes twoHalves)) ()).1 =
        some (true,
          ⟨some ⟨1, 2, 3, 4⟩, some (some 0x8200), some ⟨7, (Buf.zero _).write [65]⟩⟩) := by
    decide
  have hiff := (imageInfo_allOrNothing_iff sampleTypes sampleIds
    (Prog.handler (slotOfBytes twoHalves)) () .app sampleOut).2 _ _ hrun
  ⟨_, hrun, rfl, hiff.mpr (.inr (by decide))⟩

/-- Of an image with a revision number only, that number is reported with an empty name. -/
theorem imageInfo_oneHalf_stored :
    ∃ out' r, ((fwImgGetImageInfo sampleTypes sampleIds .app sampleOut).run
        (Prog.handler (slotOfBytes oneHalf)) ()).1 = some (true, out') ∧
      out'.pHwRev = some r ∧ r.found = ⟨7, []⟩ ∧
      ¬AllOrNothing sampleTypes sampleIds (Prog.handler (slotOfBytes oneHalf)) () .app sampleOut
        true out' := by
  have hrun : ((fwImgGetImageInfo sampleTypes sampleIds .app sampleOut).run
      (Prog.handler (slotOfBytes oneHalf)) ()).1 =
        some (true, ⟨some ⟨1, 2, 3, 4⟩, some (some 0x8200), some ⟨7, .zero _⟩⟩) := by decide
  refine ⟨_, ⟨7, .zero _⟩, hrun, rfl, by decide, fun ⟨_, hall⟩ => ?_⟩
  obtain ⟨-, -, hrev⟩ := hall rfl
  rcases hrev _ rfl with ⟨hc, -⟩ | hempty
  · exact absurd hc (by decide)
  · exact absurd hempty (by decide)

end FwLoader.Image
