import FwLoader.Image.Decoding
import FwLoader.Image.FileWalk

/-!
# The two scans agree

The scan of a flash area and the scan of a file that holds the same bytes come to the same result,
as long as the flash scan stays inside the area. One round of one loop does what the same round of
the other does: the value that the file scan reads without a seek of its own is the one behind the
header it has just read.
-/

namespace FwLoader.Image

open Foundations

section

variable {T : RuuviTlvTypes} {A : FlashArea} {B : List UInt8} {σ : Type} {H : FsFile σ}
  {At : σ → ℕ → Prop} {faId : ℤ} {prior : FwImageHwRev} {st : ScanState} {tlvsEndOff : ℕ}

/-- A read call that lies inside the bytes `B`, or another call. -/
def InRange (B : List UInt8) : FlashCall → Prop
  | .flashAreaRead off len => off + len ≤ B.length
  | _ => True

instance (B : List UInt8) : DecidablePred (InRange B)
  | .flashAreaRead _ _ => inferInstanceAs (Decidable (_ ≤ _))
  | .flashAreaOpen _ | .flashAreaClose | .bootImageLoadHeader => inferInstanceAs (Decidable True)

/-- A round of the file scan does what the same round of the flash scan does. -/
private theorem round_agrees (hA : A.Holds B) (hH : H.Serves B At) (s : σ)
    (hin : ∀ c ∈ (flashScanBody T tlvsEndOff st).calls A, InRange B c) :
    ((fileScanBody T tlvsEndOff st).run H s).1 = (flashScanBody T tlvsEndOff st).eval A := by
  have hsize : ImageTlv.size = 4 := rfl
  by_cases htest : sizeT (st.dataOff + ImageTlv.size) ≤ tlvsEndOff
  swap
  · rw [(FsFile.run_fileScanBody_of_lt (Nat.not_le.mp htest)).1,
      (FlashArea.flashScanBody_of_lt (Nat.not_le.mp htest)).1]
  have hhdr : st.dataOff + ImageTlv.size ≤ B.length :=
    hin (.flashAreaRead st.dataOff ImageTlv.size) (FlashArea.mem_calls_flashScanBody htest)
  have hlt := hA.length_lt
  have hoff : sizeT (st.dataOff + ImageTlv.size) = st.dataOff + ImageTlv.size :=
    sizeT_of_lt (by omega)
  have hread := hA.read_eq hhdr
  obtain ⟨tlv, htlv⟩ : ∃ tlv, st.tlv.load (slice B st.dataOff ImageTlv.size) = tlv := ⟨_, rfl⟩
  have hrc : (A.read st.dataOff ImageTlv.size).rc = 0 := by rw [hread]
  have hload : st.tlv.load (A.read st.dataOff ImageTlv.size).bytes = tlv := by rw [hread, htlv]
  -- The value lies behind the four bytes of the header for both scans.
  have hvalue : Wants T st.hwRev tlv →
      A.valueRead tlv st.dataOff = ⟨0, FsFile.valueBytes B st.dataOff tlv⟩ := by
    intro hw
    have hmem : FlashCall.flashAreaRead (sizeT (st.dataOff + ImageTlv.size)) tlv.itLen.toNat ∈
        (flashScanBody T tlvsEndOff st).calls A := by
      rw [FlashArea.calls_flashScanBody htest hrc hload, FlashArea.valueCalls, if_pos hw]
      exact List.mem_cons_of_mem _ List.mem_cons_self
    rw [FlashArea.valueRead, hA.read_eq (hin _ hmem), hoff, FsFile.valueBytes,
      length_slice_of_le hhdr]
  obtain ⟨hrun, -⟩ := FsFile.round_of_seek (T := T) hH
    (hH.seek_ok s (by omega : st.dataOff ≤ B.length)) htest htlv
  rw [hrun, FlashArea.eval_flashScanBody htest hrc hload fun hw => by rw [hvalue hw]]
  by_cases hw : Wants T st.hwRev tlv
  · rw [hvalue hw]
  · exact roundResult_of_not_wants hw

/-- The flash scan returns if its TLV area starts where an area can. -/
private theorem flash_loop_returns {start tot : ℕ} (hstart : start < 2 ^ 31 + 4)
    (htot : tot < 2 ^ 16) (r : FwImageHwRev) :
    ∃ out, (Prog.loop (flashScanBody T (start + tot)) tlvLoopRounds ⟨start, .zero, r⟩).eval A =
      some out := by
  refine Prog.loop_returns (fun st => st.dataOff < 2 ^ 31 + 2 ^ 18)
    (fun st => start + tot - st.dataOff) ?_ (by show start < _; omega) ?_
  · intro st st' hst heval
    obtain ⟨htest, len, hoff⟩ := FlashArea.dataOff_of_eval_flashScanBody heval
    have hlen := len.toNat_lt
    have hsize : ImageTlv.size = 4 := rfl
    rw [sizeT_of_lt (by omega)] at htest hoff
    omega
  · show start + tot - start < tlvLoopRounds
    rw [tlvLoopRounds]
    omega

/-- Both scans come to the same result, on success and on every failure. -/
theorem findInFile_eq_findInFlashArea (hA : A.Holds B) (hlen : ImageHeader.size ≤ B.length)
    (ha : A.Accepts faId (.ofBytes (slice B 0 ImageHeader.size)))
    (hin : ∀ c ∈ (fwImgHwRevFindInFlashArea T faId prior).calls A, InRange B c)
    (hH : H.Serves B At) (s : σ) :
    ∃ ok r, (fwImgHwRevFindInFlashArea T faId prior).eval A = some (ok, r) ∧
      ((fwImgHwRevFindInFile T prior).run H s).1 = some (ok, r) := by
  obtain ⟨hdr, hhdr⟩ : ∃ hdr, ImageHeader.ofBytes (slice B 0 ImageHeader.size) = hdr := ⟨_, rfl⟩
  obtain ⟨s₁, hfind, -⟩ := FsFile.find_of_header (T := T) prior s hH hlen
  rw [hhdr] at ha hfind
  have hinfo : hdr.tlvAreaOff + ImageTlvInfo.size ≤ B.length :=
    hin (.flashAreaRead hdr.tlvAreaOff ImageTlvInfo.size) (FlashArea.mem_calls_find ha)
  have hlt := hA.length_lt
  have hsize : ImageTlvInfo.size = 4 := rfl
  by_cases hmagic : (infoAt B hdr.tlvAreaOff).itMagic = imageTlvProtInfoMagic
  · obtain ⟨heval, hcalls⟩ :=
      FlashArea.find_of_magic_eq (T := T) prior ha (hA.read_eq hinfo) hmagic (by omega)
    obtain ⟨s₂, hloop, -⟩ := FsFile.behindHeader_of_magic_eq (T := T) prior.reset s₁ hH hmagic
    obtain ⟨⟨ok, r⟩, hout⟩ := flash_loop_returns (T := T) (A := A)
      (by omega : hdr.tlvAreaOff + ImageTlvInfo.size < 2 ^ 31 + 4)
      (infoAt B hdr.tlvAreaOff).itTlvTot.toNat_lt prior.reset
    refine ⟨ok, r, heval.trans hout, ?_⟩
    rw [hfind, hloop, ← hout]
    refine Prog.loop_sim (fun _ _ => True) (InRange B)
      (fun st s _ hround => ⟨round_agrees hA hH s hround, fun _ _ => trivial⟩) trivial ?_
    intro c hc
    refine hin c ?_
    rw [hcalls]
    simp [hc]
  · obtain ⟨heval, -⟩ := FlashArea.find_of_magic_ne (T := T) prior ha (hA.read_eq hinfo) hmagic
    refine ⟨false, prior.reset, heval, ?_⟩
    rw [hfind, FsFile.behindHeader_of_magic_ne prior.reset hH
      (fun _ => (hH.seek_ok s₁ (by omega : hdr.tlvAreaOff ≤ B.length)).2) hmagic]

end

/-- The two scans of one image, which come to the same result. -/
theorem findInFile_eq_findInFlashArea_sample :
    ∃ ok r, (fwImgHwRevFindInFlashArea sampleTypes 1 ⟨7, Buf.zero _⟩).eval
        (FlashArea.ofBytes sampleImage) = some (ok, r) ∧
      ((fwImgHwRevFindInFile sampleTypes ⟨7, Buf.zero _⟩).run (FsFile.ofBytes sampleImage) 0).1 =
        some (ok, r) :=
  findInFile_eq_findInFlashArea (FlashArea.holds_ofBytes (by decide)) (by decide)
    (FlashArea.accepts_ofBytes sampleImage 1) (by decide)
    (FsFile.servesPastEnd_ofBytes (by decide)).toServes 0

end FwLoader.Image
