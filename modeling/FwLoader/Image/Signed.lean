import FwLoader.Foundations.Records
import FwLoader.Foundations.CString
import FwLoader.Image.Slots
import FwLoader.Image.Admission
import FwLoader.Image.Decoding

/-!
# Signed images

An image is signed with a version and a hardware revision. It is stored as its header, its payload
and its protected TLVs, the revision among them. What is stored so comes back: both scans find the
revision that the image was signed with, and `fw_img_get_image_info` reports its version too.
-/

namespace FwLoader.Image

open Foundations

/-! ## The header -/

theorem field32_storeFields (before after : List (ℕ × ℕ)) (x : UInt32) :
    field32 (storeFields (before ++ (4, x.toNat) :: after)) (widthOf before) = x := by
  have hread := ofLE_slice_storeFields before after (w := 4) x.toNat_lt []
  rw [List.append_nil] at hread
  rw [field32, hread, UInt32.ofNat_toNat]

theorem field16_storeFields (before after : List (ℕ × ℕ)) (x : UInt16) :
    field16 (storeFields (before ++ (2, x.toNat) :: after)) (widthOf before) = x := by
  have hread := ofLE_slice_storeFields before after (w := 2) x.toNat_lt []
  rw [List.append_nil] at hread
  rw [field16, hread, UInt16.ofNat_toNat]

theorem getD_storeFields (before after : List (ℕ × ℕ)) (x : UInt8) :
    (storeFields (before ++ (1, x.toNat) :: after)).getD (widthOf before) 0 = x := by
  have hbyte : toLE 1 x.toNat = [x] := by simp [toLE]
  rw [storeFields_append, ← length_storeFields, List.getD_append_right _ _ _ _ le_rfl,
    Nat.sub_self]
  show (toLE 1 x.toNat ++ storeFields after).getD 0 0 = x
  rw [hbyte]
  rfl

namespace ImageHeader

/-- The fields of the header, the last one for the padding. -/
def fields (h : ImageHeader) : List (ℕ × ℕ) :=
  [(4, h.ihMagic.toNat), (4, h.ihLoadAddr.toNat), (2, h.ihHdrSize.toNat),
    (2, h.ihProtectTlvSize.toNat), (4, h.ihImgSize.toNat), (4, h.ihFlags.toNat),
    (1, h.ihVer.ivMajor.toNat), (1, h.ihVer.ivMinor.toNat), (2, h.ihVer.ivRevision.toNat),
    (4, h.ihVer.ivBuildNum.toNat), (4, 0)]

/-- The memory of the header. -/
def toBytes (h : ImageHeader) : List UInt8 := storeFields h.fields

@[simp] theorem length_toBytes (h : ImageHeader) : h.toBytes.length = size :=
  length_storeFields h.fields

/-- A header that has been stored is read back. -/
theorem ofBytes_toBytes (h : ImageHeader) : ofBytes h.toBytes = h := by
  have magic : field32 h.toBytes 0 = h.ihMagic :=
    field32_storeFields (h.fields.take 0) (h.fields.drop 1) _
  have loadAddr : field32 h.toBytes 4 = h.ihLoadAddr :=
    field32_storeFields (h.fields.take 1) (h.fields.drop 2) _
  have hdrSize : field16 h.toBytes 8 = h.ihHdrSize :=
    field16_storeFields (h.fields.take 2) (h.fields.drop 3) _
  have protectSize : field16 h.toBytes 10 = h.ihProtectTlvSize :=
    field16_storeFields (h.fields.take 3) (h.fields.drop 4) _
  have imgSize : field32 h.toBytes 12 = h.ihImgSize :=
    field32_storeFields (h.fields.take 4) (h.fields.drop 5) _
  have flags : field32 h.toBytes 16 = h.ihFlags :=
    field32_storeFields (h.fields.take 5) (h.fields.drop 6) _
  have major : h.toBytes.getD 20 0 = h.ihVer.ivMajor :=
    getD_storeFields (h.fields.take 6) (h.fields.drop 7) _
  have minor : h.toBytes.getD 21 0 = h.ihVer.ivMinor :=
    getD_storeFields (h.fields.take 7) (h.fields.drop 8) _
  have revision : field16 h.toBytes 22 = h.ihVer.ivRevision :=
    field16_storeFields (h.fields.take 8) (h.fields.drop 9) _
  have buildNum : field32 h.toBytes 24 = h.ihVer.ivBuildNum :=
    field32_storeFields (h.fields.take 9) (h.fields.drop 10) _
  rw [ofBytes, magic, loadAddr, hdrSize, protectSize, imgSize, flags, major, minor, revision,
    buildNum]

end ImageHeader

theorem headerOf_toBytes_append (h : ImageHeader) (tail : List UInt8) :
    headerOf (h.toBytes ++ tail) = h := by
  have hfront : (h.toBytes ++ tail).drop 0 = h.toBytes ++ tail := rfl
  rw [headerOf, slice_of_drop_eq hfront h.length_toBytes.symm, h.ofBytes_toBytes]

/-! ## Images -/

/-- A hardware revision that an image can be signed with. -/
structure HwRevision where
  num : UInt32
  name : CString
  num_ne : num ≠ 0
  name_pos : 0 < name.strlen
  name_le : name.strlen ≤ fwInfoHwRevNameMaxLen

namespace HwRevision

/-- The TLV of the number, the most significant byte first. -/
def idTlv (T : RuuviTlvTypes) (rev : HwRevision) : Tlv where
  type := T.hwRevId
  value := toBE 4 rev.num.toNat
  length_lt := by
    rw [length_toBE]
    norm_num

/-- The TLV of the name, without a NUL. -/
def nameTlv (T : RuuviTlvTypes) (rev : HwRevision) : Tlv where
  type := T.hwRevName
  value := rev.name.bytes
  length_lt := lt_of_le_of_lt rev.name_le (by decide)

/-- What the scans find of the revision. -/
def found (rev : HwRevision) : Found := ⟨rev.num.toNat, rev.name.bytes⟩

theorem ofBE_idTlv (T : RuuviTlvTypes) (rev : HwRevision) :
    ofBE (rev.idTlv T).value = rev.num.toNat := ofBE_toBE (w := 4) rev.num.toNat_lt

theorem isHwRevId_idTlv (T : RuuviTlvTypes) (rev : HwRevision) : IsHwRevId T (rev.idTlv T) := by
  refine ⟨rfl, length_toBE 4 _, ?_⟩
  rw [ofBE_idTlv]
  exact fun h => rev.num_ne (UInt32.toNat_inj.mp h)

theorem takeWhile_name (rev : HwRevision) :
    rev.name.bytes.takeWhile (· ≠ 0) = rev.name.bytes :=
  List.takeWhile_eq_self_iff.mpr fun c hc => by simpa using rev.name.noNul c hc

theorem isHwRevName_nameTlv (T : RuuviTlvTypes) (rev : HwRevision) :
    IsHwRevName T (rev.nameTlv T) := by
  refine ⟨rfl, rev.name_pos, rev.name_le, fun h => ?_⟩
  exact rev.name.noNul 0 (List.mem_of_head? h) rfl

end HwRevision

/-- An image with its protected TLVs, and what follows them. -/
structure SignedImage (T : RuuviTlvTypes) where
  hdr : ImageHeader
  padding : List UInt8
  payload : List UInt8
  hwRev : HwRevision
  protectedTlvs : List Tlv
  unprotected : List UInt8
  hdrSize_eq : hdr.ihHdrSize.toNat = ImageHeader.size + padding.length
  imgSize_eq : hdr.ihImgSize.toNat = payload.length
  tot_lt : ImageTlvInfo.size + (Tlv.encodeAll protectedTlvs).length < 2 ^ 16
  id_mem : hwRev.idTlv T ∈ protectedTlvs
  name_mem : hwRev.nameTlv T ∈ protectedTlvs
  id_atMostOne : AtMostOne T.hwRevId protectedTlvs
  name_atMostOne : AtMostOne T.hwRevName protectedTlvs

namespace SignedImage

variable {T : RuuviTlvTypes} (I : SignedImage T)

/-- The image as it is stored. -/
def toBytes : List UInt8 :=
  I.hdr.toBytes ++ (I.padding ++ I.payload ++
    (Tlv.header imageTlvProtInfoMagic (ImageTlvInfo.size + (Tlv.encodeAll I.protectedTlvs).length) ++
      (Tlv.encodeAll I.protectedTlvs ++ I.unprotected)))

theorem headerOf_toBytes (tail : List UInt8) : headerOf (I.toBytes ++ tail) = I.hdr := by
  rw [toBytes, List.append_assoc, headerOf_toBytes_append]

/-- Behind the payload comes the protected area. -/
theorem drop_toBytes (tail : List UInt8) :
    (I.toBytes ++ tail).drop (I.hdr.ihHdrSize.toNat + I.hdr.ihImgSize.toNat) =
      Tlv.header imageTlvProtInfoMagic (ImageTlvInfo.size + (Tlv.encodeAll I.protectedTlvs).length) ++
        (Tlv.encodeAll I.protectedTlvs ++ (I.unprotected ++ tail)) := by
  have hlen : I.hdr.ihHdrSize.toNat + I.hdr.ihImgSize.toNat =
      (I.hdr.toBytes ++ (I.padding ++ I.payload)).length := by
    rw [List.length_append, ImageHeader.length_toBytes, List.length_append, I.hdrSize_eq,
      I.imgSize_eq]
    omega
  have hsplit : I.toBytes ++ tail = (I.hdr.toBytes ++ (I.padding ++ I.payload)) ++
      (Tlv.header imageTlvProtInfoMagic
          (ImageTlvInfo.size + (Tlv.encodeAll I.protectedTlvs).length) ++
        (Tlv.encodeAll I.protectedTlvs ++ (I.unprotected ++ tail))) := by
    simp only [toBytes, List.append_assoc]
  rw [hlen, hsplit, List.drop_left]

/-- The search through the TLVs of the image finds its revision. -/
theorem scanTlvs_protectedTlvs : scanTlvs T .none I.protectedTlvs = .accepted I.hwRev.found := by
  refine (scanTlvs_accepted_iff I.id_atMostOne I.name_atMostOne).mpr ⟨?_, ?_⟩
  · exact ⟨_, I.id_mem, I.hwRev.isHwRevId_idTlv T, (I.hwRev.ofBE_idTlv T).symm⟩
  · exact ⟨_, I.name_mem, I.hwRev.isHwRevName_nameTlv T, I.hwRev.takeWhile_name.symm⟩

end SignedImage

/-- The structure holds this revision. -/
def FwImageHwRev.Shows (r : FwImageHwRev) (rev : HwRevision) : Prop :=
  r.hwRevNum = rev.num ∧ r.hwRevName.toCString = rev.name

theorem FwImageHwRev.shows_of_found {r : FwImageHwRev} {rev : HwRevision}
    (h : r.found = rev.found) : r.Shows rev := by
  refine ⟨UInt32.toNat_inj.mp (congrArg Found.num h), ?_⟩
  have hname : r.hwRevName.cStr = rev.name.bytes := congrArg Found.name h
  exact CString.ext hname

/-! ## What the scans find -/

namespace SignedImage

variable {T : RuuviTlvTypes} {I : SignedImage T} {tail : List UInt8}

/-- The scan of a flash area that begins with the image, whatever comes behind it. -/
theorem eval_findInFlashArea {A : FlashArea} {faId : ℤ} (hA : A.Holds (I.toBytes ++ tail))
    (ha : A.Accepts faId I.hdr) (prior : FwImageHwRev) :
    ∃ r, (fwImgHwRevFindInFlashArea T faId prior).eval A = some (true, r) ∧ r.Shows I.hwRev := by
  have haccepted := I.scanTlvs_protectedTlvs
  obtain ⟨st, hfound, hdrop, -, heval⟩ :=
    find_of_protected (T := T) hA ha I.tot_lt (I.drop_toBytes tail) prior
  have hrounds := rounds_of_tot_lt I.tot_lt
  rw [← hfound] at haccepted
  obtain ⟨⟨ok, r⟩, hloop, hdecides, -⟩ :=
    FlashArea.loop_of_decided (T := T) hA hdrop (Nat.le_add_right _ ImageTlv.size)
      (by omega : I.protectedTlvs.length ≤ tlvLoopRounds) (by rw [haccepted]; exact nofun)
  rw [haccepted] at hdecides
  obtain ⟨rfl, hr⟩ := hdecides
  exact ⟨r, heval.trans hloop, FwImageHwRev.shows_of_found hr⟩

theorem infoAt_toBytes (hlen : (I.toBytes ++ tail).length < 2 ^ 31) :
    ∃ tot : UInt16, tot.toNat = ImageTlvInfo.size + (Tlv.encodeAll I.protectedTlvs).length ∧
      I.hdr.tlvAreaOff = I.hdr.ihHdrSize.toNat + I.hdr.ihImgSize.toNat ∧
      infoAt (I.toBytes ++ tail) I.hdr.tlvAreaOff = ⟨imageTlvProtInfoMagic, tot⟩ := by
  obtain ⟨tot, htot⟩ : ∃ tot : UInt16,
      tot.toNat = ImageTlvInfo.size + (Tlv.encodeAll I.protectedTlvs).length :=
    ⟨UInt16.ofNat _, UInt16.toNat_ofNat_of_lt' I.tot_lt⟩
  have hdrop := I.drop_toBytes tail
  rw [← htot] at hdrop
  have hinside := add_length_le_of_drop_eq hdrop (by rw [Tlv.length_header]; omega)
  have hoff : I.hdr.tlvAreaOff = I.hdr.ihHdrSize.toNat + I.hdr.ihImgSize.toNat :=
    sizeT_of_lt (by omega)
  refine ⟨tot, htot, hoff, ?_⟩
  have hhdr : ImageTlvInfo.size = (Tlv.header imageTlvProtInfoMagic tot.toNat).length :=
    (Tlv.length_header _ _).symm
  rw [infoAt, hoff, slice_of_drop_eq hdrop hhdr, ImageTlvInfo.load_header]

/-- The scan of a file that begins with the image finds the revision that it was signed with,
whatever comes behind the image. -/
theorem findInFile_signed {σ : Type} {H : FsFile σ} {At : σ → ℕ → Prop}
    (hH : H.Serves (I.toBytes ++ tail) At) (prior : FwImageHwRev) (s : σ) :
    ∃ r, ((fwImgHwRevFindInFile T prior).run H s).1 = some (true, r) ∧ r.Shows I.hwRev := by
  obtain ⟨tot, htot, hoff, hinfo⟩ := I.infoAt_toBytes hH.length_lt
  have hhdr : ImageHeader.ofBytes (slice (I.toBytes ++ tail) 0 ImageHeader.size) = I.hdr :=
    I.headerOf_toBytes tail
  have hlen : ImageHeader.size ≤ (I.toBytes ++ tail).length := by
    rw [toBytes, List.append_assoc, List.length_append, ImageHeader.length_toBytes]
    omega
  obtain ⟨s', -, hrun, -, -⟩ := find_of_info (T := T) hH hlen hhdr (by rw [hinfo]) s prior
  rw [hinfo] at hrun
  -- the TLV at which the search through the protected area ends
  obtain ⟨us, t, vs, g, hsplit, hus, hstep⟩ := scanTlvs_split (T := T) .none I.protectedTlvs
    (by rw [I.scanTlvs_protectedTlvs]; exact nofun)
  rw [I.scanTlvs_protectedTlvs] at hstep
  have hdrop : (I.toBytes ++ tail).drop (I.hdr.tlvAreaOff + ImageTlvInfo.size) =
      Tlv.encodeAll us ++ (t.encode ++ (Tlv.encodeAll vs ++ (I.unprotected ++ tail))) := by
    have hhdr : ImageTlvInfo.size = (Tlv.header imageTlvProtInfoMagic
        (ImageTlvInfo.size + (Tlv.encodeAll I.protectedTlvs).length)).length :=
      (Tlv.length_header _ _).symm
    rw [hoff, drop_add_of_drop_eq (I.drop_toBytes tail) hhdr, hsplit, Tlv.encodeAll_append,
      Tlv.encodeAll_cons, List.append_assoc, List.append_assoc]
  have hbehind : (Tlv.encodeAll us).length + ImageTlv.size ≤ tot.toNat := by
    have hsize : ImageTlv.size = 4 := rfl
    rw [htot, hsplit, Tlv.encodeAll_append, Tlv.encodeAll_cons, List.length_append,
      List.length_append, Tlv.length_encode]
    omega
  have hpasses : Passes T (I.toBytes ++ tail) (I.hdr.tlvAreaOff + ImageTlvInfo.size)
      (I.hdr.tlvAreaOff + ImageTlvInfo.size + tot.toNat) us g
      (t.encode ++ (Tlv.encodeAll vs ++ (I.unprotected ++ tail))) :=
    ⟨hdrop, by omega, hus⟩
  obtain ⟨r, hacc, hr, -⟩ := accepts_of_tlv hpasses hH
    (Nat.add_lt_add_left tot.toNat_lt _) hstep prior.reset prior.found_reset s'
  exact ⟨r, hrun.trans hacc, FwImageHwRev.shows_of_found hr⟩

end SignedImage

/-! ## What is reported -/

namespace Flash

variable {F : Flash} {T : RuuviTlvTypes} {ids : FlashAreaIds} {fwImgId : FwImgId}

/-- The slot is there, its area begins with the image, MCUboot loads the header that is there, and a
`struct fw_info` is found for it. -/
structure HoldsImage (F : Flash) (ids : FlashAreaIds) (fwImgId : FwImgId) (I : SignedImage T) :
    Prop where
  valid : ids.faIdInvalid ≠ faIdFromFwImgId ids fwImgId
  stores : ∃ tail, (F.area (faIdFromFwImgId ids fwImgId)).Holds (I.toBytes ++ tail) ∧
    (F.area (faIdFromFwImgId ids fwImgId)).Accepts (faIdFromFwImgId ids fwImgId)
      (headerOf (I.toBytes ++ tail))
  info : F.fwInfo (F.off (faIdFromFwImgId ids fwImgId)) ≠ none

/-- The header is that of the image. -/
theorem header_signed {I : SignedImage T} (h : F.HoldsImage ids fwImgId I) :
    F.header ids fwImgId = some I.hdr := by
  obtain ⟨tail, -, ha⟩ := h.stores
  rw [I.headerOf_toBytes] at ha
  have hrc : (F.area (faIdFromFwImgId ids fwImgId)).loadHeader.rc = 0 := by rw [ha.loadHeader_eq]
  exact (if_pos ⟨h.valid, ha.openRc_eq, h.info, hrc⟩).trans
    (congrArg (fun h : LoadHeaderAnswer => some h.hdr) ha.loadHeader_eq)

/-- The scan of the slot finds the revision of the image. -/
theorem revision_signed {I : SignedImage T} (hF : F.Bounded) (h : F.HoldsImage ids fwImgId I) :
    (F.revision T ids fwImgId).Shows I.hwRev := by
  have hheader := header_signed h
  obtain ⟨tail, hA, ha⟩ := h.stores
  rw [I.headerOf_toBytes] at ha
  obtain ⟨r, heval, hr⟩ := SignedImage.eval_findInFlashArea hA ha ⟨0, .zero _⟩
  exact revision_eq_of_eval hF hheader heval ▸ hr

/-- Of a slot that stores a signed image, `fw_img_get_image_info` reports the version and the
revision that the image was signed with, whatever the other areas hold. -/
theorem fwImgGetImageInfo_signed {I : SignedImage T} (h : F.HoldsImage ids fwImgId I)
    (out : ImageInfoOut) (opened : ℤ) :
    ∃ slot r, ((fwImgGetImageInfo T ids fwImgId out).run F.handler opened).1 =
        some (true, out.store slot r) ∧
      slot.imgHdr = I.hdr ∧ slot.pFwInfo ≠ none ∧ r.Shows I.hwRev := by
  obtain ⟨tail, hA, ha⟩ := h.stores
  rw [I.headerOf_toBytes] at ha
  obtain ⟨r, heval, hr⟩ := SignedImage.eval_findInFlashArea hA ha ⟨0, .zero _⟩
  refine ⟨⟨faIdFromFwImgId ids fwImgId, F.fwInfo (F.off (faIdFromFwImgId ids fwImgId)), I.hdr⟩, r,
    ?_, rfl, h.info, hr⟩
  rw [run_fwImgGetImageInfo, fwImgGetImageInfo, Prog.eval_bind, eval_fwImgFindSlot, header_signed h]
  show Prog.eval _ ((fwImgHwRevFindInFlashArea T _ ⟨0, .zero _⟩).inl >>= _) = _
  have hinl : (fwImgHwRevFindInFlashArea T (faIdFromFwImgId ids fwImgId) ⟨0, .zero _⟩).inl.eval
      (F.slot (faIdFromFwImgId ids fwImgId)) = some (true, r) := by
    rw [Prog.eval_inl]
    exact heval
  rw [Prog.eval_bind, hinl]
  rfl

end Flash

/-! ## A signed image -/

/-- A revision with a name of one letter. -/
def sampleRevision : HwRevision := ⟨2, ⟨[65], by simp⟩, by decide, by decide, by decide⟩

/-- An image of two bytes with this revision, the name in front of the number. -/
def sampleSigned (ver : ImageVersion) : SignedImage sampleTypes where
  hdr := ⟨imageMagic, 0, 33, 21, 2, 0, ver⟩
  padding := [0]
  payload := [0xAA, 0xBB]
  hwRev := sampleRevision
  protectedTlvs := [sampleRevision.nameTlv sampleTypes, ⟨0x50, [9], by decide⟩,
    sampleRevision.idTlv sampleTypes]
  unprotected := Tlv.header imageTlvInfoMagic 4
  hdrSize_eq := rfl
  imgSize_eq := rfl
  tot_lt := by decide
  id_mem := by decide
  name_mem := by decide
  id_atMostOne := by decide
  name_atMostOne := by decide

/-- The versions of the images in the areas of a flash. -/
def slotVersion : ℤ → ImageVersion
  | 1 => ⟨2, 0, 0, 1⟩
  | 2 => ⟨1, 2, 3, 4⟩
  | 3 => ⟨3, 1, 0, 7⟩
  | _ => ⟨3, 1, 0, 8⟩

/-- A flash with such an image in each area. -/
def signedFlash : Flash :=
  { sampleFlash with
    area := fun faId => FlashArea.ofBytes (sampleSigned (slotVersion faId)).toBytes }

theorem length_sampleSigned (ver : ImageVersion) : (sampleSigned ver).toBytes.length = 61 := rfl

theorem flashBounds_sampleSigned (ver : ImageVersion) :
    FlashBounds (Prog.handler (FlashArea.ofBytes (sampleSigned ver).toBytes)) 61 := by
  have hhdr : ImageHeader.ofBytes (slice (sampleSigned ver).toBytes 0 ImageHeader.size) =
      (sampleSigned ver).hdr := by
    have hfront := (sampleSigned ver).headerOf_toBytes []
    rwa [List.append_nil] at hfront
  rw [← length_sampleSigned ver]
  refine flashBounds_ofBytes ?_ ?_
  · rw [length_sampleSigned]
    norm_num
  · rw [hhdr, length_sampleSigned]
    show 33 + 2 < 61
    norm_num

theorem signedFlash_bounded : signedFlash.Bounded := fun _ => ⟨_, flashBounds_sampleSigned _⟩

theorem signedFlash_holdsImage {fwImgId : FwImgId}
    (hvalid : sampleIds.faIdInvalid ≠ faIdFromFwImgId sampleIds fwImgId) :
    signedFlash.HoldsImage sampleIds fwImgId
      (sampleSigned (slotVersion (faIdFromFwImgId sampleIds fwImgId))) := by
  refine ⟨hvalid, ⟨[], ?_, ?_⟩, nofun⟩
  · rw [List.append_nil]
    refine FlashArea.holds_ofBytes ?_
    rw [length_sampleSigned]
    norm_num
  · rw [List.append_nil]
    exact FlashArea.accepts_ofBytes _ _

/-- An area that cannot be opened. -/
def FlashArea.absent : FlashArea
  | .flashAreaOpen _ => (-19 : ℤ)
  | .flashAreaClose => ()
  | .bootImageLoadHeader => (⟨-1, ⟨0, 0, 0, 0, 0, 0, ⟨0, 0, 0, 0⟩⟩⟩ : LoadHeaderAnswer)
  | .flashAreaRead _ _ => (⟨-22, []⟩ : ReadAnswer)

/-- The same flash without one of its areas. -/
def Flash.without (lost : ℤ) : Flash :=
  { signedFlash with area := fun faId =>
      if faId = lost then FlashArea.absent else signedFlash.area faId }

theorem Flash.without_bounded (lost : ℤ) : (without lost).Bounded := by
  intro faId
  by_cases hlost : faId = lost
  · refine ⟨0, ?_⟩
    rw [show (without lost).area faId = FlashArea.absent from if_pos hlost]
    have hread : (-22 : ℤ) ≠ 0 := by decide
    have hheader : (-1 : ℤ) ≠ 0 := by decide
    exact ⟨by norm_num, fun _ _ _ h => absurd h hread, fun _ h => absurd h hheader⟩
  · refine ⟨61, ?_⟩
    rw [show (without lost).area faId = signedFlash.area faId from if_neg hlost]
    exact flashBounds_sampleSigned _

/-- From a file with this image its revision is read, though the structure holds another one. -/
theorem findInFile_signed_sample :
    ∃ r, ((fwImgHwRevFindInFile sampleTypes ⟨3, .zero _⟩).run
        (FsFile.ofBytesBelow ((sampleSigned ⟨1, 2, 3, 4⟩).toBytes ++ [0xFF])) 0).1 =
          some (true, r) ∧
      r.Shows sampleRevision :=
  SignedImage.findInFile_signed
    (FsFile.servesSought_ofBytesBelow (by decide)).toServes ⟨3, .zero _⟩ 0

theorem fwImgGetImageInfo_signed_sample :
    ∃ slot r, ((fwImgGetImageInfo sampleTypes sampleIds .mcuboot1 sampleOut).run
        signedFlash.handler 0).1 = some (true, sampleOut.store slot r) ∧
      slot.imgHdr.ihVer = ⟨3, 1, 0, 8⟩ ∧ slot.pFwInfo ≠ none ∧ r.Shows sampleRevision := by
  obtain ⟨slot, r, hrun, hhdr, hinfo, hr⟩ := Flash.fwImgGetImageInfo_signed
    (signedFlash_holdsImage (by decide : _ ≠ faIdFromFwImgId sampleIds .mcuboot1)) sampleOut 0
  exact ⟨slot, r, hrun, congrArg ImageHeader.ihVer hhdr, hinfo, hr⟩

end FwLoader.Image
