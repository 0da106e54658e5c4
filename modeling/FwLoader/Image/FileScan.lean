import FwLoader.Image.FlashScan

/-!
# The scan of an update file

`fw_img_hw_rev_find_in_file` and the functions below it, as programs over `fs_seek` and `fs_read`.
The value of a TLV is read at the position that the read of its header has left the file at.
-/

namespace FwLoader.Image

open Foundations

/-- The calls made on the open file. -/
inductive FsCall
  | fsSeek (off : ℕ)
  | fsRead (len : ℕ)
deriving DecidableEq

/-- The file system, as the scan uses it. `fs_seek` answers its return code; all seeks are from the
beginning of the file. -/
abbrev fsApi : Interface where
  Call := FsCall
  Answer
    | .fsSeek _ => ℤ
    | .fsRead _ => ReadAnswer

def fsSeek (off : ℕ) : Prog fsApi ℤ := @Prog.perform fsApi (.fsSeek off)

def fsRead (len : ℕ) : Prog fsApi ReadAnswer := @Prog.perform fsApi (.fsRead len)

/-- `find_tlvs_in_file`: the start and end offsets of the TLVs, or `none` for `false`. -/
def findTlvsInFile (magic : UInt16) (startOffset : ℕ) : Prog fsApi (Option (ℕ × ℕ)) := do
  let rc ← fsSeek startOffset
  if rc ≠ 0 then
    pure none
  else do
    let r ← fsRead ImageTlvInfo.size
    let tlvInfo := ImageTlvInfo.load r.bytes
    if r.rc < 0 then
      pure none
    else if tlvInfo.itMagic ≠ magic then
      pure none
    else
      let tlvsStartOff := sizeT (startOffset + ImageTlvInfo.size)
      let tlvsEndOff := sizeT (tlvsStartOff + tlvInfo.itTlvTot.toNat)
      pure (some (tlvsStartOff, tlvsEndOff))

/-- The branch of `fw_img_hw_rev_handle_tlv_hw_rev_in_file` for an ID TLV. -/
def handleTlvHwRevIdInFile (tlv : ImageTlv) (hwRev : FwImageHwRev) :
    Prog fsApi (Bool × FwImageHwRev) :=
  if tlv.itLen.toNat ≠ 4 then
    pure (false, hwRev)
  else if hwRev.hwRevNum ≠ 0 then
    pure (false, hwRev)
  else do
    let r ← fsRead 4
    let buf := (Buf.zero 4).write r.bytes
    if r.rc < 0 then
      pure (false, hwRev)
    else
      pure (true, { hwRev with hwRevNum := u32FromBytesBe buf })

/-- The branch of `fw_img_hw_rev_handle_tlv_hw_rev_in_file` for a name TLV. The read goes straight
into `hw_rev_name`. -/
def handleTlvHwRevNameInFile (tlv : ImageTlv) (hwRev : FwImageHwRev) :
    Prog fsApi (Bool × FwImageHwRev) :=
  if tlv.itLen.toNat ≥ fwInfoHwRevNameMaxLen + 1 then
    pure (false, hwRev)
  else if hwRev.hwRevName.first ≠ 0 then
    pure (false, hwRev)
  else do
    let r ← fsRead tlv.itLen.toNat
    let name := hwRev.hwRevName.write r.bytes
    -- fewer bytes than asked for are no error
    if r.rc < 0 then
      pure (false, { hwRev with hwRevName := name })
    else
      pure (true, { hwRev with hwRevName := name.set tlv.itLen.toNat 0 })

section

variable (T : RuuviTlvTypes)

/-- `fw_img_hw_rev_handle_tlv_hw_rev_in_file`: whether the TLV was handled without an error, and
`*p_hw_rev` afterwards. -/
def fwImgHwRevHandleTlvHwRevInFile (tlv : ImageTlv) (hwRev : FwImageHwRev) :
    Prog fsApi (Bool × FwImageHwRev) := do
  let res ←
    if T.hwRevId = tlv.itType then handleTlvHwRevIdInFile tlv hwRev
    else pure (true, hwRev)
  if res.1 = false then
    pure res
  else if T.hwRevName = tlv.itType then
    handleTlvHwRevNameInFile tlv res.2
  else
    pure res

/-- One round of the loop of `fw_img_hw_rev_find_in_file`, its test included. -/
def fileScanBody (tlvsEndOff : ℕ) (st : ScanState) :
    Prog fsApi (ScanState ⊕ (Bool × FwImageHwRev)) :=
  if sizeT (st.dataOff + ImageTlv.size) ≤ tlvsEndOff then do
    let rc ← fsSeek st.dataOff
    if rc ≠ 0 then
      pure (.inr (false, st.hwRev))
    else do
      let r ← fsRead ImageTlv.size
      -- a short read leaves the rest of the header as it was in the round before
      let tlv := st.tlv.load r.bytes
      if r.rc < 0 then
        pure (.inr (false, st.hwRev))
      else do
        let res ← fwImgHwRevHandleTlvHwRevInFile T tlv st.hwRev
        if res.1 = false then
          pure (.inr (false, res.2))
        else if res.2.Complete then
          pure (.inr (true, res.2))
        else
          pure (.inl ⟨sizeT (st.dataOff + (ImageTlv.size + tlv.itLen.toNat)), tlv, res.2⟩)
  else
    pure (.inr (false, st.hwRev))

/-- The part of `fw_img_hw_rev_find_in_file` behind the read of the image header. -/
def findInFileBehindHeader (imgHdr : ImageHeader) (hwRev : FwImageHwRev) :
    Prog fsApi (Option (Bool × FwImageHwRev)) := do
  let tlvs ← findTlvsInFile imageTlvProtInfoMagic imgHdr.tlvAreaOff
  match tlvs with
  | none => pure (some (false, hwRev))
  | some (tlvsStartOff, tlvsEndOff) =>
    Prog.loop (fileScanBody T tlvsEndOff) tlvLoopRounds ⟨tlvsStartOff, .zero, hwRev⟩

/-- `fw_img_hw_rev_find_in_file`: the result and `*p_hw_rev` afterwards. -/
def fwImgHwRevFindInFile (hwRev : FwImageHwRev) : Prog fsApi (Option (Bool × FwImageHwRev)) := do
  let rc ← fsSeek 0
  if rc ≠ 0 then
    pure (some (false, hwRev.reset))
  else do
    let r ← fsRead ImageHeader.size
    let imgHdr := ImageHeader.ofBytes (overlay (List.replicate ImageHeader.size 0) r.bytes)
    if r.rc < 0 then
      pure (some (false, hwRev.reset))
    -- the only read whose length is checked
    else if r.rc ≠ ImageHeader.size then
      pure (some (false, hwRev.reset))
    else
      findInFileBehindHeader T imgHdr hwRev.reset

end

/-! ## Running the file calls -/

/-- What the calls on an open file do, from a state of the file system. -/
abbrev FsFile (σ : Type) := Handler fsApi σ

namespace FsFile

variable {σ : Type} (H : FsFile σ) (s : σ)

/-- The return code of `fs_seek`. -/
def seekRc (off : ℕ) : ℤ := H.answer s (FsCall.fsSeek off)

/-- The state after `fs_seek`. -/
def seek (off : ℕ) : σ := H.next s (FsCall.fsSeek off)

/-- What `fs_read` answers. -/
def read (len : ℕ) : ReadAnswer := H.answer s (FsCall.fsRead len)

/-- The state after `fs_read`. -/
def afterRead (len : ℕ) : σ := H.next s (FsCall.fsRead len)

variable {β : Type}

@[simp high] theorem run_fsSeek_bind (off : ℕ) (f : ℤ → Prog fsApi β) :
    (fsSeek off >>= f).run H s = (f (H.seekRc s off)).run H (H.seek s off) := rfl

@[simp high] theorem trace_fsSeek_bind (off : ℕ) (f : ℤ → Prog fsApi β) :
    (fsSeek off >>= f).trace H s =
      ⟨FsCall.fsSeek off, H.seekRc s off⟩ :: (f (H.seekRc s off)).trace H (H.seek s off) := rfl

@[simp high] theorem run_fsRead_bind (len : ℕ) (f : ReadAnswer → Prog fsApi β) :
    (fsRead len >>= f).run H s = (f (H.read s len)).run H (H.afterRead s len) := rfl

@[simp high] theorem trace_fsRead_bind (len : ℕ) (f : ReadAnswer → Prog fsApi β) :
    (fsRead len >>= f).trace H s =
      ⟨FsCall.fsRead len, H.read s len⟩ :: (f (H.read s len)).trace H (H.afterRead s len) := rfl

end FsFile

end FwLoader.Image
