import FwLoader.Foundations.Effects
import FwLoader.Image.Layout

/-!
# The scan of a flash area

`fw_img_hw_rev_find_in_flash_area` and the functions below it, as programs over the calls they make
of the flash map and of MCUboot. Log messages are left out.
-/

namespace FwLoader.Image

open Foundations

/-- What a read call leaves: its return code and the bytes it stored at the front of the buffer. -/
structure ReadAnswer where
  rc : ℤ
  bytes : List UInt8
deriving DecidableEq

/-- What `boot_image_load_header` leaves: its return code and the header it filled in. -/
structure LoadHeaderAnswer where
  rc : ℤ
  hdr : ImageHeader
deriving DecidableEq

/-- The calls made on flash areas. Reads are of the area opened last. -/
inductive FlashCall
  | flashAreaOpen (faId : ℤ)
  | flashAreaClose
  | bootImageLoadHeader
  | flashAreaRead (off len : ℕ)
deriving DecidableEq

/-- The flash map and MCUboot's header loader, as the scan uses them. -/
abbrev flashApi : Interface where
  Call := FlashCall
  Answer
    | .flashAreaOpen _ => ℤ
    | .flashAreaClose => Unit
    | .bootImageLoadHeader => LoadHeaderAnswer
    | .flashAreaRead _ _ => ReadAnswer

def flashAreaOpen (faId : ℤ) : Prog flashApi ℤ := @Prog.perform flashApi (.flashAreaOpen faId)

def flashAreaClose : Prog flashApi Unit := @Prog.perform flashApi .flashAreaClose

def bootImageLoadHeader : Prog flashApi LoadHeaderAnswer :=
  @Prog.perform flashApi .bootImageLoadHeader

def flashAreaRead (off len : ℕ) : Prog flashApi ReadAnswer :=
  @Prog.perform flashApi (.flashAreaRead off len)

/-- `while` loops are followed for this many rounds. A TLV area is at most `2 ^ 16` bytes long and
each round passes at least four of them. -/
def tlvLoopRounds : ℕ := 2 ^ 16

/-- `find_tlvs_in_flash_area`: the start and end offsets of the TLVs, or `none` for `false`. -/
def findTlvsInFlashArea (magic : UInt16) (startOffset : ℕ) : Prog flashApi (Option (ℕ × ℕ)) := do
  let r ← flashAreaRead startOffset ImageTlvInfo.size
  let tlvInfo := ImageTlvInfo.load r.bytes
  if r.rc ≠ 0 then
    pure none
  else if tlvInfo.itMagic ≠ magic then
    pure none
  else
    let tlvsStartOff := sizeT (startOffset + ImageTlvInfo.size)
    -- `it_tlv_tot` counts the info header too, which has been passed already
    let tlvsEndOff := sizeT (tlvsStartOff + tlvInfo.itTlvTot.toNat)
    pure (some (tlvsStartOff, tlvsEndOff))

section

variable (T : RuuviTlvTypes)

/-- The branch of `fw_img_hw_rev_handle_tlv_hw_rev_in_flash_area` for an ID TLV. -/
def handleTlvHwRevIdInFlashArea (tlv : ImageTlv) (dataOff : ℕ) (hwRev : FwImageHwRev) :
    Prog flashApi (Bool × FwImageHwRev) :=
  if tlv.itLen.toNat ≠ 4 then
    pure (false, hwRev)
  else if hwRev.hwRevNum ≠ 0 then
    pure (false, hwRev)
  else do
    let r ← flashAreaRead (sizeT (dataOff + ImageTlv.size)) 4
    let buf := (Buf.zero 4).write r.bytes
    if r.rc ≠ 0 then
      pure (false, hwRev)
    else
      pure (true, { hwRev with hwRevNum := u32FromBytesBe buf })

/-- The branch of `fw_img_hw_rev_handle_tlv_hw_rev_in_flash_area` for a name TLV. The read goes
straight into `hw_rev_name`. -/
def handleTlvHwRevNameInFlashArea (tlv : ImageTlv) (dataOff : ℕ) (hwRev : FwImageHwRev) :
    Prog flashApi (Bool × FwImageHwRev) :=
  if tlv.itLen.toNat ≥ fwInfoHwRevNameMaxLen + 1 then
    pure (false, hwRev)
  else if hwRev.hwRevName.first ≠ 0 then
    pure (false, hwRev)
  else do
    let r ← flashAreaRead (sizeT (dataOff + ImageTlv.size)) tlv.itLen.toNat
    let name := hwRev.hwRevName.write r.bytes
    if r.rc ≠ 0 then
      -- what has been read before the error stays in the name
      pure (false, { hwRev with hwRevName := name })
    else
      pure (true, { hwRev with hwRevName := name.set tlv.itLen.toNat 0 })

/-- `fw_img_hw_rev_handle_tlv_hw_rev_in_flash_area`: whether the TLV was handled without an error,
and `*p_hw_rev` afterwards. -/
def fwImgHwRevHandleTlvHwRevInFlashArea (tlv : ImageTlv) (dataOff : ℕ) (hwRev : FwImageHwRev) :
    Prog flashApi (Bool × FwImageHwRev) := do
  let res ←
    if T.hwRevId = tlv.itType then handleTlvHwRevIdInFlashArea tlv dataOff hwRev
    else pure (true, hwRev)
  if res.1 = false then
    pure res
  else if T.hwRevName = tlv.itType then
    handleTlvHwRevNameInFlashArea tlv dataOff res.2
  else
    pure res

/-- The variables of the TLV loops: `data_off`, `tlv` and `*p_hw_rev`. -/
structure ScanState where
  dataOff : ℕ
  tlv : ImageTlv
  hwRev : FwImageHwRev
deriving DecidableEq

/-- One round of the loop of `fw_img_hw_rev_find_in_flash_area_internal`, its test included. A
`break` leaves with `is_success` as it stands. -/
def flashScanBody (tlvsEndOff : ℕ) (st : ScanState) :
    Prog flashApi (ScanState ⊕ (Bool × FwImageHwRev)) :=
  if sizeT (st.dataOff + ImageTlv.size) ≤ tlvsEndOff then do
    let r ← flashAreaRead st.dataOff ImageTlv.size
    let tlv := st.tlv.load r.bytes
    if r.rc ≠ 0 then
      pure (.inr (false, st.hwRev))
    else do
      let res ← fwImgHwRevHandleTlvHwRevInFlashArea T tlv st.dataOff st.hwRev
      if res.1 = false then
        pure (.inr (false, res.2))
      else if res.2.Complete then
        pure (.inr (true, res.2))
      else
        pure (.inl ⟨sizeT (st.dataOff + (ImageTlv.size + tlv.itLen.toNat)), tlv, res.2⟩)
  else
    pure (.inr (false, st.hwRev))

/-- `fw_img_hw_rev_find_in_flash_area_internal`: the result and `*p_hw_rev` afterwards. -/
def fwImgHwRevFindInFlashAreaInternal (hwRev : FwImageHwRev) :
    Prog flashApi (Option (Bool × FwImageHwRev)) := do
  let h ← bootImageLoadHeader
  if h.rc ≠ 0 then
    pure (some (false, hwRev))
  else do
    let tlvs ← findTlvsInFlashArea imageTlvProtInfoMagic h.hdr.tlvAreaOff
    match tlvs with
    | none => pure (some (false, hwRev))
    | some (tlvsStartOff, tlvsEndOff) =>
      Prog.loop (flashScanBody T tlvsEndOff) tlvLoopRounds ⟨tlvsStartOff, .zero, hwRev⟩

/-- `fw_img_hw_rev_find_in_flash_area` -/
def fwImgHwRevFindInFlashArea (faId : ℤ) (hwRev : FwImageHwRev) :
    Prog flashApi (Option (Bool × FwImageHwRev)) := do
  let rc ← flashAreaOpen faId
  if rc ≠ 0 then
    pure (some (false, hwRev.reset))
  else do
    let res ← fwImgHwRevFindInFlashAreaInternal T hwRev.reset
    flashAreaClose
    pure res

end

/-! ## Running the flash calls -/

/-- What the flash calls answer while one area is open. -/
abbrev FlashArea := Oracle flashApi

namespace FlashArea

variable (A : FlashArea)

/-- `flash_area_open` of the area. -/
def openRc (faId : ℤ) : ℤ := A (FlashCall.flashAreaOpen faId)

/-- `boot_image_load_header` on the area. -/
def loadHeader : LoadHeaderAnswer := A FlashCall.bootImageLoadHeader

/-- `flash_area_read` of the area. -/
def read (off len : ℕ) : ReadAnswer := A (FlashCall.flashAreaRead off len)

variable {β : Type}

@[simp high] theorem eval_flashAreaOpen_bind (faId : ℤ) (f : ℤ → Prog flashApi β) :
    (flashAreaOpen faId >>= f).eval A = (f (A.openRc faId)).eval A := rfl

@[simp high] theorem calls_flashAreaOpen_bind (faId : ℤ) (f : ℤ → Prog flashApi β) :
    (flashAreaOpen faId >>= f).calls A =
      FlashCall.flashAreaOpen faId :: (f (A.openRc faId)).calls A := rfl

@[simp high] theorem eval_flashAreaClose_bind (f : Unit → Prog flashApi β) :
    (flashAreaClose >>= f).eval A = (f ()).eval A := rfl

@[simp high] theorem calls_flashAreaClose_bind (f : Unit → Prog flashApi β) :
    (flashAreaClose >>= f).calls A = FlashCall.flashAreaClose :: (f ()).calls A := rfl

@[simp high] theorem eval_bootImageLoadHeader_bind (f : LoadHeaderAnswer → Prog flashApi β) :
    (bootImageLoadHeader >>= f).eval A = (f A.loadHeader).eval A := rfl

@[simp high] theorem calls_bootImageLoadHeader_bind (f : LoadHeaderAnswer → Prog flashApi β) :
    (bootImageLoadHeader >>= f).calls A =
      FlashCall.bootImageLoadHeader :: (f A.loadHeader).calls A := rfl

@[simp high] theorem eval_flashAreaRead_bind (off len : ℕ) (f : ReadAnswer → Prog flashApi β) :
    (flashAreaRead off len >>= f).eval A = (f (A.read off len)).eval A := rfl

@[simp high] theorem calls_flashAreaRead_bind (off len : ℕ) (f : ReadAnswer → Prog flashApi β) :
    (flashAreaRead off len >>= f).calls A =
      FlashCall.flashAreaRead off len :: (f (A.read off len)).calls A := rfl

end FlashArea

/-- What the flash calls do, from a state of the flash. -/
abbrev FlashDevice (σ : Type) := Handler flashApi σ

namespace FlashDevice

variable {σ : Type} (H : FlashDevice σ) (s : σ)

/-- What `boot_image_load_header` answers. -/
def loadHeader : LoadHeaderAnswer := H.answer s FlashCall.bootImageLoadHeader

/-- The state after `boot_image_load_header`. -/
def afterLoadHeader : σ := H.next s FlashCall.bootImageLoadHeader

/-- What `flash_area_read` answers. -/
def read (off len : ℕ) : ReadAnswer := H.answer s (FlashCall.flashAreaRead off len)

/-- The state after `flash_area_read`. -/
def afterRead (off len : ℕ) : σ := H.next s (FlashCall.flashAreaRead off len)

variable {β : Type}

@[simp high] theorem run_bootImageLoadHeader_bind (f : LoadHeaderAnswer → Prog flashApi β) :
    (bootImageLoadHeader >>= f).run H s = (f (H.loadHeader s)).run H (H.afterLoadHeader s) := rfl

@[simp high] theorem trace_bootImageLoadHeader_bind (f : LoadHeaderAnswer → Prog flashApi β) :
    (bootImageLoadHeader >>= f).trace H s =
      ⟨FlashCall.bootImageLoadHeader, H.loadHeader s⟩ ::
        (f (H.loadHeader s)).trace H (H.afterLoadHeader s) := rfl

@[simp high] theorem run_flashAreaRead_bind (off len : ℕ) (f : ReadAnswer → Prog flashApi β) :
    (flashAreaRead off len >>= f).run H s =
      (f (H.read s off len)).run H (H.afterRead s off len) := rfl

@[simp high] theorem trace_flashAreaRead_bind (off len : ℕ) (f : ReadAnswer → Prog flashApi β) :
    (flashAreaRead off len >>= f).trace H s =
      ⟨FlashCall.flashAreaRead off len, H.read s off len⟩ ::
        (f (H.read s off len)).trace H (H.afterRead s off len) := rfl

end FlashDevice

end FwLoader.Image
