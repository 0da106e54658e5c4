import FwLoader.Image.ImageInfo

/-!
# What an area tells

The TLVs behind an image are a list that the answers of the area make up, and the revision is what a
search through this list takes from it. Neither says anything about the calls of a scan.
`findInFlashArea_eq_revision` is the connection: a scan leaves this revision, whether it succeeds or
not.
-/

namespace FwLoader.Image

open Foundations

/-! ## A search through TLVs -/

section

variable (T : RuuviTlvTypes)

/-- The revision that a search through TLVs takes, each of which is its header with the answer to a
read of its value. The search goes on until a TLV of the two types is refused or its value cannot be
read, or both halves are there. -/
def FwImageHwRev.search : FwImageHwRev → List (ImageTlv × ReadAnswer) → FwImageHwRev
  | r, [] => r
  | r, v :: vs =>
    if ¬IsRevisionType T v.1.itType then search r vs
    else if ¬Wants T r v.1 then r
    else if v.2.rc = 0 ∧ ¬(r.keep T v).Complete then search (r.keep T v) vs
    else r.keep T v

variable {T} {r : FwImageHwRev} {tlv : ImageTlv}

theorem search_of_other (h : ¬IsRevisionType T tlv.itType) (a : ReadAnswer)
    (vs : List (ImageTlv × ReadAnswer)) : r.search T ((tlv, a) :: vs) = r.search T vs := if_pos h

theorem search_of_refused (hrev : IsRevisionType T tlv.itType) (hw : ¬Wants T r tlv)
    (a : ReadAnswer) (vs : List (ImageTlv × ReadAnswer)) : r.search T ((tlv, a) :: vs) = r := by
  rw [FwImageHwRev.search, if_neg (not_not_intro hrev), if_pos hw]

theorem search_of_wants (hw : Wants T r tlv) (a : ReadAnswer)
    (vs : List (ImageTlv × ReadAnswer)) :
    r.search T ((tlv, a) :: vs) =
      if a.rc = 0 ∧ ¬(r.keep T (tlv, a)).Complete then (r.keep T (tlv, a)).search T vs
      else r.keep T (tlv, a) := by
  have hrev : IsRevisionType T tlv.itType := by
    by_contra hrev
    exact not_wants_of_not_revision hrev hw
  rw [FwImageHwRev.search, if_neg (not_not_intro hrev), if_neg (not_not_intro hw)]

end

/-! ## The TLVs of an area -/

namespace FlashArea

section

variable (A : FlashArea)

/-- The first `n` TLVs from `off` up to `stop`, as far as their headers can be read. Where an answer
is too short for a header, the rest is that of the header before, `tlv`. -/
def tlvs (stop : ℕ) : ℕ → ImageTlv → ℕ → List (ImageTlv × ReadAnswer)
  | 0, _, _ => []
  | n + 1, tlv, off =>
    let answer := A.read off ImageTlv.size
    let tlv' := tlv.load answer.bytes
    if off + ImageTlv.size ≤ stop ∧ answer.rc = 0 then
      (tlv', A.read (off + ImageTlv.size) tlv'.itLen.toNat) ::
        tlvs stop n tlv' (off + (ImageTlv.size + tlv'.itLen.toNat))
    else []

variable (T : RuuviTlvTypes)

/-- The revision in the protected TLVs behind the image. There is none without their info header. -/
def revision : FwImageHwRev :=
  let off := A.loadHeader.hdr.ihHdrSize.toNat + A.loadHeader.hdr.ihImgSize.toNat
  let answer := A.read off ImageTlvInfo.size
  let tlvInfo := ImageTlvInfo.load answer.bytes
  let start := off + ImageTlvInfo.size
  if answer.rc = 0 ∧ tlvInfo.itMagic = imageTlvProtInfoMagic then
    -- there are at most as many TLVs as bytes
    (FwImageHwRev.mk 0 (.zero _)).search T
      (A.tlvs (start + tlvInfo.itTlvTot.toNat) tlvInfo.itTlvTot.toNat .zero start)
  else ⟨0, .zero _⟩

end

/-! ## What the scan finds -/

section

variable {T : RuuviTlvTypes} {A : FlashArea} {tlv : ImageTlv} {off stop n m : ℕ}
  {r : FwImageHwRev} {st : ScanState} {res : Bool × FwImageHwRev}

/-- The handlers keep what the read of a value answers. -/
theorem eval_handle_of_wants (hw : Wants T r tlv) :
    (fwImgHwRevHandleTlvHwRevInFlashArea T tlv off r).eval A =
      (decide ((A.valueRead tlv off).rc = 0), r.keep T (tlv, A.valueRead tlv off)) := by
  by_cases hrc : (A.valueRead tlv off).rc = 0
  · rw [handle.1 fun _ => hrc, handled, if_pos hw, FwImageHwRev.storeValue, FwImageHwRev.keep]
    simp only [hrc, decide_true, if_true, eq_comm]
  rw [fwImgHwRevHandleTlvHwRevInFlashArea, FwImageHwRev.keep]
  rw [valueRead] at hrc ⊢
  by_cases hi : T.hwRevId = tlv.itType
  · obtain ⟨hlen, hnum⟩ := (wants_id_iff hi).mp hw
    rw [hlen] at hrc ⊢
    simp [hi, handleTlvHwRevIdInFlashArea, hlen, hnum, hrc]
  · have hn : T.hwRevName = tlv.itType := (hw.resolve_left fun h => hi h.1).1
    obtain ⟨hlen, hname⟩ := (wants_name_iff hn).mp hw
    simp [hi, Ne.symm hi, hn, handleTlvHwRevNameInFlashArea, Nat.not_le.mpr hlen, hname, hrc]

theorem eval_handle_of_not_wants (hw : ¬Wants T r tlv) :
    (fwImgHwRevHandleTlvHwRevInFlashArea T tlv off r).eval A =
      (decide (¬IsRevisionType T tlv.itType), r) := by
  rw [handle.1 fun hw' => absurd hw' hw, handled, if_neg hw]

/-- A round whose header read succeeds leaves what the search takes from this TLV, and the loop goes
on exactly if the search does. -/
theorem round_searches (hc : ¬st.hwRev.Complete)
    (htest : sizeT (st.dataOff + ImageTlv.size) ≤ stop)
    (hhdr : (A.read st.dataOff ImageTlv.size).rc = 0)
    (htlv : st.tlv.load (A.read st.dataOff ImageTlv.size).bytes = tlv) :
    (∃ r, (flashScanBody T stop st).eval A =
        .inl ⟨sizeT (st.dataOff + (ImageTlv.size + tlv.itLen.toNat)), tlv, r⟩ ∧ ¬r.Complete ∧
      ∀ vs, st.hwRev.search T ((tlv, A.valueRead tlv st.dataOff) :: vs) = r.search T vs) ∨
    ∃ isSuccess r, (flashScanBody T stop st).eval A = .inr (isSuccess, r) ∧
      ∀ vs, st.hwRev.search T ((tlv, A.valueRead tlv st.dataOff) :: vs) = r := by
  have hround : (flashScanBody T stop st).eval A = afterHandler st.dataOff tlv
      ((fwImgHwRevHandleTlvHwRevInFlashArea T tlv st.dataOff st.hwRev).eval A) := by
    rw [flashScanBody, afterHandler]
    simp [htest, hhdr, htlv]
  rw [hround, afterHandler]
  by_cases hw : Wants T st.hwRev tlv
  · have hsearch := search_of_wants hw (A.valueRead tlv st.dataOff)
    rw [eval_handle_of_wants hw]
    by_cases hrc : (A.valueRead tlv st.dataOff).rc = 0
    · by_cases hr : (st.hwRev.keep T (tlv, A.valueRead tlv st.dataOff)).Complete
      · exact .inr ⟨true, _, by simp [hrc, hr], fun vs =>
          (hsearch vs).trans (if_neg fun h => h.2 hr)⟩
      · exact .inl ⟨_, by simp [hrc, hr], hr, fun vs => (hsearch vs).trans (if_pos ⟨hrc, hr⟩)⟩
    · exact .inr ⟨false, _, by simp [hrc], fun vs => (hsearch vs).trans (if_neg fun h => hrc h.1)⟩
  rw [eval_handle_of_not_wants hw]
  by_cases hrev : IsRevisionType T tlv.itType
  · exact .inr ⟨false, _, by simp [hrev], search_of_refused hrev hw _⟩
  · exact .inl ⟨_, by simp [hrev, hc], hc, search_of_other hrev _⟩

/-- The list goes on where there is room for a header and it can be read. -/
theorem tlvs_eq (hm : stop < off + 4 * m + 4) :
    A.tlvs stop m tlv off =
      if off + ImageTlv.size ≤ stop ∧ (A.read off ImageTlv.size).rc = 0 then
        (tlv.load (A.read off ImageTlv.size).bytes, A.read (off + ImageTlv.size)
            (tlv.load (A.read off ImageTlv.size).bytes).itLen.toNat) ::
          A.tlvs stop (m - 1) (tlv.load (A.read off ImageTlv.size).bytes) (off + (ImageTlv.size +
            (tlv.load (A.read off ImageTlv.size).bytes).itLen.toNat))
      else [] := by
  have hsize : ImageTlv.size = 4 := rfl
  cases m with
  | zero => rw [if_neg (by omega), tlvs]
  | succ m => rfl

/-- The loop leaves what a search takes from the TLVs that are still to come. -/
theorem loop_searches (hlow : Low stop) (hnear : Near stop st) (hc : ¬st.hwRev.Complete)
    (hm : stop < st.dataOff + 4 * m + 4)
    (h : (Prog.loop (flashScanBody T stop) n st).eval A = some res) :
    res.2 = st.hwRev.search T (A.tlvs stop m st.tlv st.dataOff) := by
  have hsize : ImageTlv.size = 4 := rfl
  unfold Low at hlow
  induction n generalizing st m with
  | zero => exact nomatch h
  | succ n ih =>
    unfold Near at hnear
    have hoff : sizeT (st.dataOff + ImageTlv.size) = st.dataOff + ImageTlv.size :=
      sizeT_of_lt (by omega)
    rw [tlvs_eq hm]
    split_ifs with hread
    · obtain ⟨htest, hrc⟩ := hread
      generalize htlv : st.tlv.load (A.read st.dataOff ImageTlv.size).bytes = tlv
      have hlen := tlv.itLen.toNat_lt
      obtain ⟨r, heval, hr, hsearch⟩ | ⟨isSuccess, r, heval, hsearch⟩ :=
        round_searches (T := T) hc (hoff.trans_le htest) hrc htlv
      all_goals rw [valueRead, hoff] at hsearch
      · have hnear' : Near stop ⟨st.dataOff + (ImageTlv.size + tlv.itLen.toNat), tlv, r⟩ := by
          show st.dataOff + (ImageTlv.size + tlv.itLen.toNat) < stop + 2 ^ 16
          omega
        rw [Prog.eval_loop_inl heval, sizeT_of_lt (by omega)] at h
        rw [hsearch]
        refine ih hnear' hr ?_ h
        show stop < st.dataOff + (ImageTlv.size + tlv.itLen.toNat) + 4 * (m - 1) + 4
        omega
      · rw [Prog.eval_loop_inr heval, Option.some.injEq] at h
        rw [hsearch, ← h]
    · have heval : (flashScanBody T stop st).eval A = .inr (false, st.hwRev) := by
        by_cases htest : st.dataOff + ImageTlv.size ≤ stop
        · exact eval_flashScanBody_of_header_ne (hoff.trans_le htest) fun hrc => hread ⟨htest, hrc⟩
        · exact (flashScanBody_of_lt (by omega)).1
      rw [Prog.eval_loop_inr heval, Option.some.injEq] at h
      rw [← h, FwImageHwRev.search]

/-- A scan of an area that opens, and whose header MCUboot loads, leaves the revision that the area
tells. -/
theorem findInFlashArea_eq_revision {faId : ℤ} {areaSize : ℕ}
    (hbounds : FlashBounds (Prog.handler A) areaSize) (hopen : A.openRc faId = 0)
    (hload : A.loadHeader.rc = 0)
    (h : (fwImgHwRevFindInFlashArea T faId ⟨0, .zero _⟩).eval A = some res) :
    res.2 = A.revision T := by
  have hlt := hbounds.size_lt
  have himage : A.loadHeader.hdr.ihHdrSize.toNat + A.loadHeader.hdr.ihImgSize.toNat < areaSize :=
    hbounds.image_inside () hload
  have hoff : A.loadHeader.hdr.tlvAreaOff =
      A.loadHeader.hdr.ihHdrSize.toNat + A.loadHeader.hdr.ihImgSize.toNat := by
    rw [ImageHeader.tlvAreaOff, sizeT_of_lt (by omega)]
  have hscan : (fwImgHwRevFindInFlashAreaInternal T (FwImageHwRev.reset ⟨0, .zero _⟩)).eval A =
      some res := by
    rw [fwImgHwRevFindInFlashArea, eval_flashAreaOpen_bind, if_neg (not_not_intro hopen),
      Prog.eval_bind] at h
    exact h
  have hreset : FwImageHwRev.reset ⟨0, .zero _⟩ = ⟨0, .zero _⟩ := by decide
  rw [hreset, fwImgHwRevFindInFlashAreaInternal, eval_bootImageLoadHeader_bind,
    if_neg (not_not_intro hload), hoff, Prog.eval_bind, findTlvsInFlashArea,
    eval_flashAreaRead_bind, Prog.eval_ite, Prog.eval_ite] at hscan
  rw [revision]
  generalize A.loadHeader.hdr.ihHdrSize.toNat + A.loadHeader.hdr.ihImgSize.toNat = off at hscan ⊢
  split_ifs at hscan with hrc hmagic
  · rw [if_neg fun h => hrc h.1]
    exact (congrArg Prod.snd (Option.some.inj hscan)).symm
  · rw [if_neg fun h => hmagic h.2]
    exact (congrArg Prod.snd (Option.some.inj hscan)).symm
  rw [if_pos ⟨not_not.mp hrc, not_not.mp hmagic⟩]
  have hin : off + ImageTlvInfo.size ≤ areaSize := hbounds.read_inside () _ _ (not_not.mp hrc)
  have htot := (ImageTlvInfo.load (A.read off ImageTlvInfo.size).bytes).itTlvTot.toNat_lt
  generalize (ImageTlvInfo.load (A.read off ImageTlvInfo.size).bytes).itTlvTot.toNat = tot
    at hscan htot ⊢
  have hsize : ImageTlvInfo.size = 4 := rfl
  have hloop : (Prog.loop (flashScanBody T (sizeT (sizeT (off + ImageTlvInfo.size) + tot)))
      tlvLoopRounds ⟨sizeT (off + ImageTlvInfo.size), .zero, ⟨0, .zero _⟩⟩).eval A = some res :=
    hscan
  rw [sizeT_of_lt (by omega : off + ImageTlvInfo.size < 2 ^ 32), sizeT_of_lt (by omega)] at hloop
  refine loop_searches ?_ ?_ ?_ ?_ hloop
  · unfold Low
    omega
  · show off + ImageTlvInfo.size < off + ImageTlvInfo.size + tot + 2 ^ 16
    omega
  · exact fun hc => hc.2 rfl
  · show off + ImageTlvInfo.size + tot < off + ImageTlvInfo.size + 4 * tot + 4
    omega

end

end FlashArea

end FwLoader.Image
