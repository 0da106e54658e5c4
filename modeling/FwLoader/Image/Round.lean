import FwLoader.Image.FileScan
import FwLoader.Image.Revision

/-!
# One round of the TLV loops

`roundResult` is what a round of either loop comes to once its reads have answered: a function of
the TLV header and of the bytes that the read of the value stored. The loops differ only in how they
read, so each gets one lemma here that names its reads, and nothing further looks into their bodies.
-/

namespace FwLoader.Image

open Foundations

/-! ## The revision found so far -/

/-- What of the revision has been found: the C view of the structure. -/
def FwImageHwRev.found (r : FwImageHwRev) : Found := ⟨r.hwRevNum.toNat, r.hwRevName.cStr⟩

private theorem toNat_eq_zero_iff (n : UInt32) : n.toNat = 0 ↔ n = 0 := by
  rw [← UInt32.toNat_inj]
  rfl

theorem FwImageHwRev.complete_iff (r : FwImageHwRev) : r.Complete ↔ r.found.Complete := by
  rw [FwImageHwRev.Complete, Found.Complete, found, Ne, Ne, Ne, Ne, toNat_eq_zero_iff,
    Buf.cStr_eq_nil_iff, and_comm]

@[simp] theorem FwImageHwRev.found_reset (r : FwImageHwRev) : r.reset.found = .none := by
  rw [found, reset, (Buf.cStr_eq_nil_iff _).mpr (Buf.first_set_zero_zero _)]
  rfl

section

variable (T : RuuviTlvTypes)

/-- `*p_hw_rev` after the read of a revision TLV's value has stored `bs`. -/
def FwImageHwRev.storeValue (r : FwImageHwRev) (tlv : ImageTlv) (bs : List UInt8) : FwImageHwRev :=
  if T.hwRevId = tlv.itType then
    { r with hwRevNum := u32FromBytesBe ((Buf.zero 4).write bs) }
  else
    { r with hwRevName := (r.hwRevName.write bs).set tlv.itLen.toNat 0 }

/-- A TLV whose value the handlers read. -/
abbrev Wants (r : FwImageHwRev) (tlv : ImageTlv) : Prop :=
  Takes T r.found tlv.itType tlv.itLen.toNat

/-- What the handlers come to if the read of the value, where there is one, stores `bs`. -/
def handled (tlv : ImageTlv) (bs : List UInt8) (r : FwImageHwRev) : Bool × FwImageHwRev :=
  if Wants T r tlv then (true, r.storeValue T tlv bs)
  else (decide (¬ IsRevisionType T tlv.itType), r)

/-- What a round comes to after the handler has returned `res`. -/
def afterHandler (dataOff : ℕ) (tlv : ImageTlv) (res : Bool × FwImageHwRev) :
    ScanState ⊕ (Bool × FwImageHwRev) :=
  if res.1 = false then .inr (false, res.2)
  else if res.2.Complete then .inr (true, res.2)
  else .inl ⟨sizeT (dataOff + (ImageTlv.size + tlv.itLen.toNat)), tlv, res.2⟩

/-- What a round at `dataOff` comes to. -/
def roundResult (dataOff : ℕ) (tlv : ImageTlv) (bs : List UInt8) (r : FwImageHwRev) :
    ScanState ⊕ (Bool × FwImageHwRev) :=
  afterHandler dataOff tlv (handled T tlv bs r)

end

section

variable {T : RuuviTlvTypes} {tlv : ImageTlv} {r : FwImageHwRev}

theorem wants_id_iff (h : T.hwRevId = tlv.itType) :
    Wants T r tlv ↔ tlv.itLen.toNat = 4 ∧ r.hwRevNum = 0 := by
  have hn : T.hwRevName ≠ tlv.itType := fun hn => T.id_ne_name (h.trans hn.symm)
  simp [Wants, Takes, h, hn, FwImageHwRev.found, toNat_eq_zero_iff]

theorem wants_name_iff (h : T.hwRevName = tlv.itType) :
    Wants T r tlv ↔ tlv.itLen.toNat < fwInfoHwRevNameMaxLen + 1 ∧ r.hwRevName.first = 0 := by
  have hi : T.hwRevId ≠ tlv.itType := fun hi => T.id_ne_name (hi.trans h.symm)
  rw [Nat.lt_succ_iff]
  simp [Wants, Takes, h, hi, FwImageHwRev.found, Buf.cStr_eq_nil_iff]

theorem not_wants_of_not_revision (h : ¬ IsRevisionType T tlv.itType) : ¬ Wants T r tlv :=
  fun hw => h (hw.imp And.left And.left)

/-- The read of the value that the handler of a wanted TLV makes. -/
private theorem handled_of_wants {bs : List UInt8} (h : Wants T r tlv) :
    handled T tlv bs r = (true, r.storeValue T tlv bs) := if_pos h

/-- A revision TLV that is not wanted is refused. -/
private theorem handled_of_refused {bs : List UInt8} (h : ¬ Wants T r tlv)
    (hrev : IsRevisionType T tlv.itType) : handled T tlv bs r = (false, r) := by
  rw [handled, if_neg h, decide_eq_false (not_not_intro hrev)]

/-- A TLV of another type is passed over. -/
private theorem handled_of_other {bs : List UInt8} (h : ¬ IsRevisionType T tlv.itType) :
    handled T tlv bs r = (true, r) := by
  rw [handled, if_neg (not_wants_of_not_revision h), decide_eq_true h]

end

/-! ## Rounds and steps of the search -/

/-- The header of a TLV. -/
def ImageTlv.ofTlv (t : Tlv) : ImageTlv := ⟨t.type, UInt16.ofNat t.value.length⟩

@[simp] theorem ImageTlv.toNat_itLen_ofTlv (t : Tlv) : (ofTlv t).itLen.toNat = t.value.length :=
  UInt16.toNat_ofNat_of_lt' t.length_lt

/-- The offset behind a TLV does not wrap around. -/
theorem ImageTlv.sizeT_behind_ofTlv {off n : ℕ} {t : Tlv} (hin : off + t.encode.length ≤ n)
    (hn : n < 2 ^ 31) :
    sizeT (off + (ImageTlv.size + (ofTlv t).itLen.toNat)) = off + t.encode.length := by
  have hsize : ImageTlv.size = 4 := rfl
  rw [toNat_itLen_ofTlv, hsize, ← Tlv.length_encode]
  exact sizeT_of_lt (by omega)

section

variable {T : RuuviTlvTypes} {tlv : ImageTlv} {r : FwImageHwRev} {st : ScanState} {off : ℕ}

/-- Storing the whole value of a wanted TLV takes it. -/
theorem FwImageHwRev.found_storeValue {bs : List UInt8} (hw : Wants T r tlv)
    (hlen : bs.length = tlv.itLen.toNat) :
    (r.storeValue T tlv bs).found = r.found.take T tlv.itType bs := by
  rw [storeValue, Found.take]
  by_cases hi : T.hwRevId = tlv.itType
  · have h4 : bs.length = 4 := hlen.trans ((wants_id_iff hi).mp hw).1
    rw [if_pos hi, if_pos hi, found, found, toNat_u32FromBytesBe, Buf.bytes_write_of_length_eq h4]
  · have hn : T.hwRevName = tlv.itType := hw.resolve_left (fun h => hi h.1) |>.1
    have hlt : bs.length < fwInfoHwRevNameMaxLen + 1 := hlen ▸ ((wants_name_iff hn).mp hw).1
    rw [if_neg hi, if_neg hi, found, found, ← hlen, Buf.cStr_write_set hlt]

/-- A round that comes to `res` does what the verdict `v` on its TLV says. -/
def Shows (off : ℕ) (tlv : ImageTlv) (v : Verdict) (res : ScanState ⊕ (Bool × FwImageHwRev)) :
    Prop :=
  match v with
  | .accepted f => ∃ r, res = .inr (true, r) ∧ r.found = f
  | .refused => ∃ r, res = .inr (false, r)
  | .undecided f =>
    ∃ r, res = .inl ⟨sizeT (off + (ImageTlv.size + tlv.itLen.toNat)), tlv, r⟩ ∧ r.found = f

private theorem afterHandler_shows (off : ℕ) (tlv : ImageTlv) (r : FwImageHwRev) :
    Shows off tlv r.found.verdict (afterHandler off tlv (true, r)) := by
  by_cases hc : r.Complete
  · rw [Found.verdict_of_complete (r.complete_iff.mp hc)]
    exact ⟨r, by simp [afterHandler, hc], rfl⟩
  · rw [Found.verdict_of_not_complete (mt r.complete_iff.mpr hc)]
    exact ⟨r, by simp [afterHandler, hc], rfl⟩

/-- A round over a TLV that is stored in full is a step of the search. -/
theorem roundResult_shows (off : ℕ) (r : FwImageHwRev) (t : Tlv) :
    Shows off (.ofTlv t) (tlvStep T r.found t) (roundResult T off (.ofTlv t) t.value r) := by
  have hlen := ImageTlv.toNat_itLen_ofTlv t
  rw [roundResult, tlvStep, ← hlen]
  by_cases hw : Wants T r (.ofTlv t)
  · have htakes : Takes T r.found t.type (ImageTlv.ofTlv t).itLen.toNat := hw
    rw [handled_of_wants hw, if_pos htakes]
    have hfound : (r.storeValue T (.ofTlv t) t.value).found = r.found.take T t.type t.value :=
      r.found_storeValue hw hlen.symm
    rw [← hfound]
    exact afterHandler_shows off _ _
  · have htakes : ¬ Takes T r.found t.type (ImageTlv.ofTlv t).itLen.toNat := hw
    rw [if_neg htakes]
    by_cases hrev : IsRevisionType T t.type
    · rw [handled_of_refused hw hrev, if_pos hrev]
      exact ⟨r, rfl⟩
    · have hother : handled T (.ofTlv t) t.value r = (true, r) := handled_of_other hrev
      rw [hother, if_neg hrev]
      exact afterHandler_shows off _ _

/-- The result `out` of a loop is what the verdict `v` that ended the search says. -/
def Decides (v : Verdict) (out : Bool × FwImageHwRev) : Prop :=
  match v with
  | .accepted f => out.1 = true ∧ out.2.found = f
  | .refused => out.1 = false
  | .undecided _ => False

/-- A verdict that ends the search ends the loop. -/
theorem Shows.decides {v : Verdict} {res : ScanState ⊕ (Bool × FwImageHwRev)}
    (h : Shows off tlv v res) (hv : ∀ g, v ≠ .undecided g) :
    ∃ out, res = .inr out ∧ Decides v out := by
  cases v with
  | accepted f =>
    obtain ⟨r, hres, hr⟩ := h
    exact ⟨(true, r), hres, rfl, hr⟩
  | refused =>
    obtain ⟨r, hres⟩ := h
    exact ⟨(false, r), hres, rfl⟩
  | undecided g => exact absurd rfl (hv g)

/-- A round that goes on goes on behind its TLV. -/
theorem dataOff_of_roundResult {bs : List UInt8} (h : roundResult T off tlv bs r = .inl st) :
    st.dataOff = sizeT (off + (ImageTlv.size + tlv.itLen.toNat)) := by
  rw [roundResult, afterHandler] at h
  split at h
  · exact nomatch h
  · split at h
    · exact nomatch h
    · rw [← Sum.inl.inj h]

/-- A TLV of another type is passed over, whatever its value. -/
theorem roundResult_of_other {bs : List UInt8} (hrev : ¬ IsRevisionType T tlv.itType)
    (hc : ¬ r.found.Complete) :
    roundResult T off tlv bs r =
      .inl ⟨sizeT (off + (ImageTlv.size + tlv.itLen.toNat)), tlv, r⟩ := by
  rw [roundResult, handled_of_other hrev]
  simp [afterHandler, mt r.complete_iff.mp hc]

/-- Only a wanted value matters. -/
theorem roundResult_of_not_wants {bs bs' : List UInt8} (hw : ¬ Wants T r tlv) :
    roundResult T off tlv bs r = roundResult T off tlv bs' r := by
  rw [roundResult, roundResult, handled, handled, if_neg hw, if_neg hw]

/-- A revision TLV that is not wanted ends the loop. -/
theorem roundResult_of_refused {bs : List UInt8} (hw : ¬ Wants T r tlv)
    (hrev : IsRevisionType T tlv.itType) : roundResult T off tlv bs r = .inr (false, r) := by
  rw [roundResult, handled_of_refused hw hrev]
  simp [afterHandler]

variable (T) in
/-- The bytes `bs`, read from the front of a value, make a revision of what has been found: the
other half is there, and these bytes are not a number 0 or an empty name. -/
def Completes (f : Found) (type : UInt16) (bs : List UInt8) : Prop :=
  (T.hwRevId = type ∧ f.name ≠ [] ∧ ∃ b ∈ bs, b ≠ 0) ∨
    (T.hwRevName = type ∧ f.num ≠ 0 ∧ bs.headD 0 ≠ 0)

theorem not_completes_nil {f : Found} {type : UInt16} : ¬ Completes T f type [] := by
  simp [Completes]

private theorem storeValue_id_ne_zero_iff {bs : List UInt8} (hlen : bs.length ≤ 4) :
    u32FromBytesBe ((Buf.zero 4).write bs) ≠ 0 ↔ ∃ b ∈ bs, b ≠ 0 := by
  have hzero : (Buf.zero 4).bytes = List.replicate 4 0 := rfl
  rw [Ne, ← toNat_eq_zero_iff, toNat_u32FromBytesBe, Buf.bytes_write, hzero, ofBE_eq_zero_iff,
    overlay_of_length_le (by simpa using hlen)]
  simp only [List.mem_append, List.drop_replicate, List.mem_replicate]
  constructor
  · intro h
    by_contra hall
    exact h fun b hb => hb.elim (fun hmem => not_not.mp fun hne => hall ⟨b, hmem, hne⟩) And.right
  · rintro ⟨b, hb, hne⟩ h
    exact hne (h b (Or.inl hb))

private theorem storeValue_name_ne_zero_iff {b : Buf (fwInfoHwRevNameMaxLen + 1)} {len : ℕ}
    {bs : List UInt8} (hb : b.first = 0) (hlen : bs.length ≤ len) :
    ((b.write bs).set len 0).first ≠ 0 ↔ bs.headD 0 ≠ 0 := by
  cases bs with
  | nil => simp [Buf.first_set_zero len hb]
  | cons c cs =>
    have hlen' : len ≠ 0 := by
      rw [List.length_cons] at hlen
      omega
    rw [Buf.first_set_of_ne hlen', Buf.first_write_cons (by decide), List.headD_cons]

/-- When a round that has read `bs` of a wanted value accepts. -/
theorem complete_storeValue_iff {bs : List UInt8} (hw : Wants T r tlv)
    (hlen : bs.length ≤ tlv.itLen.toNat) :
    (r.storeValue T tlv bs).Complete ↔ Completes T r.found tlv.itType bs := by
  have hname : r.found.name = [] ↔ r.hwRevName.first = 0 := r.hwRevName.cStr_eq_nil_iff
  have hnum : r.found.num = 0 ↔ r.hwRevNum = 0 := toNat_eq_zero_iff _
  rw [FwImageHwRev.storeValue, Completes, Ne, Ne, hname, hnum]
  by_cases hi : T.hwRevId = tlv.itType
  · have hn : T.hwRevName ≠ tlv.itType := fun hn => T.id_ne_name (hi.trans hn.symm)
    have h4 : bs.length ≤ 4 := hlen.trans_eq ((wants_id_iff hi).mp hw).1
    rw [if_pos hi, FwImageHwRev.Complete, storeValue_id_ne_zero_iff h4]
    simp [hi, hn]
  · have hn : T.hwRevName = tlv.itType := hw.resolve_left (fun h => hi h.1) |>.1
    have hfirst : r.hwRevName.first = 0 := ((wants_name_iff hn).mp hw).2
    rw [if_neg hi, FwImageHwRev.Complete, storeValue_name_ne_zero_iff hfirst hlen]
    simp [hi, hn, and_comm]

/-- A round that has read enough of a wanted value accepts. -/
theorem roundResult_of_completes {bs : List UInt8} (hw : Wants T r tlv)
    (hlen : bs.length ≤ tlv.itLen.toNat) (hc : Completes T r.found tlv.itType bs) :
    roundResult T off tlv bs r = .inr (true, r.storeValue T tlv bs) := by
  rw [roundResult, handled_of_wants hw]
  simp [afterHandler, (complete_storeValue_iff hw hlen).mpr hc]

/-- A round that has not read enough of a wanted value goes on. -/
theorem roundResult_of_not_completes {bs : List UInt8} (hw : Wants T r tlv)
    (hlen : bs.length ≤ tlv.itLen.toNat) (hc : ¬ Completes T r.found tlv.itType bs) :
    roundResult T off tlv bs r =
      .inl ⟨sizeT (off + (ImageTlv.size + tlv.itLen.toNat)), tlv, r.storeValue T tlv bs⟩ := by
  rw [roundResult, handled_of_wants hw]
  simp [afterHandler, mt (complete_storeValue_iff hw hlen).mp hc]

/-- A round that can read nothing of a value does not accept. -/
theorem roundResult_nil (off : ℕ) (tlv : ImageTlv) (hc : ¬ r.Complete) :
    (∃ r', roundResult T off tlv [] r = .inr (false, r')) ∨
      ∃ r', roundResult T off tlv [] r =
        .inl ⟨sizeT (off + (ImageTlv.size + tlv.itLen.toNat)), tlv, r'⟩ ∧ ¬ r'.Complete := by
  by_cases hw : Wants T r tlv
  · have hlen : ([] : List UInt8).length ≤ tlv.itLen.toNat := Nat.zero_le _
    have hno : ¬ Completes T r.found tlv.itType [] := not_completes_nil
    exact Or.inr ⟨_, roundResult_of_not_completes hw hlen hno,
      mt (complete_storeValue_iff hw hlen).mp hno⟩
  by_cases hrev : IsRevisionType T tlv.itType
  · exact Or.inl ⟨r, roundResult_of_refused hw hrev⟩
  · exact Or.inr ⟨r, roundResult_of_other hrev (mt r.complete_iff.mpr hc), hc⟩

end

/-! ## The flash area -/

namespace FlashArea

variable {T : RuuviTlvTypes} {A : FlashArea} {tlv : ImageTlv} {off tlvsEndOff : ℕ}
  {r : FwImageHwRev} {st : ScanState}

variable (A tlv off) in
/-- `flash_area_read` of the value of a TLV whose header is at `off`. -/
def valueRead : ReadAnswer := A.read (sizeT (off + ImageTlv.size)) tlv.itLen.toNat

variable (T A tlv off r) in
/-- The calls of the handlers: the value of a wanted TLV is read. -/
def valueCalls : List FlashCall :=
  if Wants T r tlv then [.flashAreaRead (sizeT (off + ImageTlv.size)) tlv.itLen.toNat] else []

private theorem handleId (A : FlashArea) (off : ℕ) (r : FwImageHwRev)
    (hi : T.hwRevId = tlv.itType) :
    ((Wants T r tlv → (A.valueRead tlv off).rc = 0) →
      (handleTlvHwRevIdInFlashArea tlv off r).eval A =
        handled T tlv (A.valueRead tlv off).bytes r) ∧
      (handleTlvHwRevIdInFlashArea tlv off r).calls A = valueCalls T tlv off r := by
  rw [handleTlvHwRevIdInFlashArea, valueCalls]
  by_cases hw : Wants T r tlv
  · obtain ⟨hlen, hnum⟩ := (wants_id_iff hi).mp hw
    refine ⟨fun hrc => ?_, by simp [hlen, hnum, hw]⟩
    have hrc' := hrc hw
    rw [valueRead, hlen] at hrc'
    rw [handled_of_wants hw, FwImageHwRev.storeValue, valueRead]
    simp [hi, hlen, hnum, hrc']
  · have hno := mt (wants_id_iff hi).mpr hw
    rw [handled_of_refused hw (Or.inl hi)]
    by_cases hlen : tlv.itLen.toNat = 4
    · have hnum : r.hwRevNum ≠ 0 := fun h => hno ⟨hlen, h⟩
      simp [hlen, hnum, hw]
    · simp [hlen, hw]

private theorem handleName (A : FlashArea) (off : ℕ) (r : FwImageHwRev)
    (hn : T.hwRevName = tlv.itType) :
    ((Wants T r tlv → (A.valueRead tlv off).rc = 0) →
      (handleTlvHwRevNameInFlashArea tlv off r).eval A =
        handled T tlv (A.valueRead tlv off).bytes r) ∧
      (handleTlvHwRevNameInFlashArea tlv off r).calls A = valueCalls T tlv off r := by
  rw [handleTlvHwRevNameInFlashArea, valueCalls]
  by_cases hw : Wants T r tlv
  · obtain ⟨hlen, hname⟩ := (wants_name_iff hn).mp hw
    have hi : T.hwRevId ≠ tlv.itType := fun hi => T.id_ne_name (hi.trans hn.symm)
    refine ⟨fun hrc => ?_, by simp [Nat.not_le.mpr hlen, hname, hw]⟩
    have hrc' := hrc hw
    rw [valueRead] at hrc'
    rw [handled_of_wants hw, FwImageHwRev.storeValue, valueRead]
    simp [hi, Nat.not_le.mpr hlen, hname, hrc']
  · have hno := mt (wants_name_iff hn).mpr hw
    rw [handled_of_refused hw (Or.inr hn)]
    by_cases hlen : tlv.itLen.toNat < fwInfoHwRevNameMaxLen + 1
    · have hname : r.hwRevName.first ≠ 0 := fun h => hno ⟨hlen, h⟩
      simp [Nat.not_le.mpr hlen, hname, hw]
    · simp [Nat.not_lt.mp hlen, hw]

/-- `fw_img_hw_rev_handle_tlv_hw_rev_in_flash_area`: its result if its read succeeds, and its
calls. -/
theorem handle :
    ((Wants T r tlv → (A.valueRead tlv off).rc = 0) →
      (fwImgHwRevHandleTlvHwRevInFlashArea T tlv off r).eval A =
        handled T tlv (A.valueRead tlv off).bytes r) ∧
      (fwImgHwRevHandleTlvHwRevInFlashArea T tlv off r).calls A = valueCalls T tlv off r := by
  rw [fwImgHwRevHandleTlvHwRevInFlashArea]
  by_cases hi : T.hwRevId = tlv.itType
  · have hn : T.hwRevName ≠ tlv.itType := fun hn => T.id_ne_name (hi.trans hn.symm)
    obtain ⟨heval, hcalls⟩ := handleId A off r hi
    refine ⟨fun hrc => ?_, by simp [hi, hn, hcalls]⟩
    simp [hi, hn, heval hrc]
  by_cases hn : T.hwRevName = tlv.itType
  · obtain ⟨heval, hcalls⟩ := handleName A off r hn
    refine ⟨fun hrc => ?_, by simp [hi, hn, hcalls]⟩
    simp [hi, hn, heval hrc]
  · have hrev : ¬ IsRevisionType T tlv.itType := fun h => h.elim hi hn
    rw [handled_of_other hrev, valueCalls, if_neg (not_wants_of_not_revision hrev)]
    simp [hi, hn]

/-- The first call of a round. -/
theorem mem_calls_flashScanBody (htest : sizeT (st.dataOff + ImageTlv.size) ≤ tlvsEndOff) :
    .flashAreaRead st.dataOff ImageTlv.size ∈ (flashScanBody T tlvsEndOff st).calls A := by
  rw [flashScanBody, if_pos htest]
  exact List.mem_cons_self

/-- The calls of a round whose header read succeeds. -/
theorem calls_flashScanBody (htest : sizeT (st.dataOff + ImageTlv.size) ≤ tlvsEndOff)
    (hhdr : (A.read st.dataOff ImageTlv.size).rc = 0)
    (htlv : st.tlv.load (A.read st.dataOff ImageTlv.size).bytes = tlv) :
    (flashScanBody T tlvsEndOff st).calls A =
      .flashAreaRead st.dataOff ImageTlv.size :: valueCalls T tlv st.dataOff st.hwRev := by
  rw [flashScanBody]
  simp [htest, hhdr, htlv, handle.2]

/-- A round whose reads succeed. -/
theorem eval_flashScanBody (htest : sizeT (st.dataOff + ImageTlv.size) ≤ tlvsEndOff)
    (hhdr : (A.read st.dataOff ImageTlv.size).rc = 0)
    (htlv : st.tlv.load (A.read st.dataOff ImageTlv.size).bytes = tlv)
    (hrc : Wants T st.hwRev tlv → (A.valueRead tlv st.dataOff).rc = 0) :
    (flashScanBody T tlvsEndOff st).eval A =
      roundResult T st.dataOff tlv (A.valueRead tlv st.dataOff).bytes st.hwRev := by
  rw [flashScanBody, roundResult, afterHandler]
  simp [htest, hhdr, htlv, handle.1 hrc]

/-- A round whose header read fails. -/
theorem eval_flashScanBody_of_header_ne (htest : sizeT (st.dataOff + ImageTlv.size) ≤ tlvsEndOff)
    (hhdr : (A.read st.dataOff ImageTlv.size).rc ≠ 0) :
    (flashScanBody T tlvsEndOff st).eval A = .inr (false, st.hwRev) := by
  rw [flashScanBody]
  simp [htest, hhdr]

/-- A handler whose read fails. -/
theorem handle_of_value_ne (hw : Wants T r tlv) (hrc : (A.valueRead tlv off).rc ≠ 0) :
    ((fwImgHwRevHandleTlvHwRevInFlashArea T tlv off r).eval A).1 = false := by
  rw [fwImgHwRevHandleTlvHwRevInFlashArea]
  rw [valueRead] at hrc
  by_cases hi : T.hwRevId = tlv.itType
  · obtain ⟨hlen, hnum⟩ := (wants_id_iff hi).mp hw
    rw [hlen] at hrc
    simp [hi, handleTlvHwRevIdInFlashArea, hlen, hnum, hrc]
  · have hn : T.hwRevName = tlv.itType := (hw.resolve_left fun h => hi h.1).1
    obtain ⟨hlen, hname⟩ := (wants_name_iff hn).mp hw
    simp [hi, hn, handleTlvHwRevNameInFlashArea, Nat.not_le.mpr hlen, hname, hrc]

/-- A round whose value read fails. -/
theorem eval_flashScanBody_of_value_ne (htest : sizeT (st.dataOff + ImageTlv.size) ≤ tlvsEndOff)
    (hhdr : (A.read st.dataOff ImageTlv.size).rc = 0)
    (htlv : st.tlv.load (A.read st.dataOff ImageTlv.size).bytes = tlv)
    (hw : Wants T st.hwRev tlv) (hrc : (A.valueRead tlv st.dataOff).rc ≠ 0) :
    ∃ r, (flashScanBody T tlvsEndOff st).eval A = .inr (false, r) := by
  refine ⟨((fwImgHwRevHandleTlvHwRevInFlashArea T tlv st.dataOff st.hwRev).eval A).2, ?_⟩
  rw [flashScanBody]
  simp [htest, hhdr, htlv, handle_of_value_ne hw hrc]

/-- A round that goes on passes a TLV header, whatever the reads answer. -/
theorem dataOff_of_eval_flashScanBody {st' : ScanState}
    (h : (flashScanBody T tlvsEndOff st).eval A = .inl st') :
    sizeT (st.dataOff + ImageTlv.size) ≤ tlvsEndOff ∧
      ∃ len : UInt16, st'.dataOff = sizeT (st.dataOff + (ImageTlv.size + len.toNat)) := by
  by_cases htest : sizeT (st.dataOff + ImageTlv.size) ≤ tlvsEndOff
  swap
  · rw [flashScanBody, if_neg htest] at h
    exact nomatch h
  refine ⟨htest, ?_⟩
  rw [flashScanBody, if_pos htest, eval_flashAreaRead_bind, Prog.eval_ite, Prog.eval_bind] at h
  split at h
  · exact nomatch h
  rw [Prog.eval_ite, Prog.eval_ite] at h
  split at h
  · exact nomatch h
  split at h
  · exact nomatch h
  · exact ⟨_, by rw [← Sum.inl.inj h]⟩

/-- The round that ends the loop. -/
theorem flashScanBody_of_lt (htest : tlvsEndOff < sizeT (st.dataOff + ImageTlv.size)) :
    (flashScanBody T tlvsEndOff st).eval A = .inr (false, st.hwRev) ∧
      (flashScanBody T tlvsEndOff st).calls A = [] := by
  rw [flashScanBody, if_neg (Nat.not_le.mpr htest)]
  exact ⟨rfl, rfl⟩

end FlashArea

/-! ## The file -/

namespace FsFile

variable {T : RuuviTlvTypes} {σ : Type} {H : FsFile σ} {s : σ} {tlv : ImageTlv} {tlvsEndOff : ℕ}
  {r : FwImageHwRev} {st : ScanState}

variable (T H tlv s r) in
/-- The calls of the handlers: the value of a wanted TLV is read at the current position. -/
def valueTrace : List (Event fsApi) :=
  if Wants T r tlv then [⟨FsCall.fsRead tlv.itLen.toNat, H.read s tlv.itLen.toNat⟩] else []

variable (T H tlv s r) in
/-- The state the handlers leave the file system in. -/
def afterValue : σ := if Wants T r tlv then H.afterRead s tlv.itLen.toNat else s

private theorem handleId (hi : T.hwRevId = tlv.itType)
    (hrc : Wants T r tlv → 0 ≤ (H.read s tlv.itLen.toNat).rc) :
    (handleTlvHwRevIdInFile tlv r).run H s =
        (handled T tlv (H.read s tlv.itLen.toNat).bytes r, H.afterValue T s tlv r) ∧
      (handleTlvHwRevIdInFile tlv r).trace H s = H.valueTrace T s tlv r := by
  rw [handleTlvHwRevIdInFile, valueTrace, afterValue]
  by_cases hw : Wants T r tlv
  · obtain ⟨hlen, hnum⟩ := (wants_id_iff hi).mp hw
    have hrc' := hrc hw
    rw [hlen] at hrc'
    rw [handled_of_wants hw, FwImageHwRev.storeValue]
    simp [hi, hlen, hnum, hw, not_lt.mpr hrc']
  · have hno := mt (wants_id_iff hi).mpr hw
    rw [handled_of_refused hw (Or.inl hi)]
    by_cases hlen : tlv.itLen.toNat = 4
    · have hnum : r.hwRevNum ≠ 0 := fun h => hno ⟨hlen, h⟩
      simp [hlen, hnum, hw]
    · simp [hlen, hw]

private theorem handleName (hn : T.hwRevName = tlv.itType)
    (hrc : Wants T r tlv → 0 ≤ (H.read s tlv.itLen.toNat).rc) :
    (handleTlvHwRevNameInFile tlv r).run H s =
        (handled T tlv (H.read s tlv.itLen.toNat).bytes r, H.afterValue T s tlv r) ∧
      (handleTlvHwRevNameInFile tlv r).trace H s = H.valueTrace T s tlv r := by
  rw [handleTlvHwRevNameInFile, valueTrace, afterValue]
  by_cases hw : Wants T r tlv
  · obtain ⟨hlen, hname⟩ := (wants_name_iff hn).mp hw
    have hi : T.hwRevId ≠ tlv.itType := fun hi => T.id_ne_name (hi.trans hn.symm)
    rw [handled_of_wants hw, FwImageHwRev.storeValue]
    simp [hi, Nat.not_le.mpr hlen, hname, hw, not_lt.mpr (hrc hw)]
  · have hno := mt (wants_name_iff hn).mpr hw
    rw [handled_of_refused hw (Or.inr hn)]
    by_cases hlen : tlv.itLen.toNat < fwInfoHwRevNameMaxLen + 1
    · have hname : r.hwRevName.first ≠ 0 := fun h => hno ⟨hlen, h⟩
      simp [Nat.not_le.mpr hlen, hname, hw]
    · simp [Nat.not_lt.mp hlen, hw]

/-- `fw_img_hw_rev_handle_tlv_hw_rev_in_file`, if its read does not fail. -/
theorem handle (hrc : Wants T r tlv → 0 ≤ (H.read s tlv.itLen.toNat).rc) :
    (fwImgHwRevHandleTlvHwRevInFile T tlv r).run H s =
        (handled T tlv (H.read s tlv.itLen.toNat).bytes r, H.afterValue T s tlv r) ∧
      (fwImgHwRevHandleTlvHwRevInFile T tlv r).trace H s = H.valueTrace T s tlv r := by
  rw [fwImgHwRevHandleTlvHwRevInFile]
  by_cases hi : T.hwRevId = tlv.itType
  · have hn : T.hwRevName ≠ tlv.itType := fun hn => T.id_ne_name (hi.trans hn.symm)
    obtain ⟨hrun, htrace⟩ := handleId hi hrc
    simp [hi, hn, hrun, htrace]
  by_cases hn : T.hwRevName = tlv.itType
  · obtain ⟨hrun, htrace⟩ := handleName hn hrc
    simp [hi, hn, hrun, htrace]
  · have hrev : ¬ IsRevisionType T tlv.itType := fun h => h.elim hi hn
    have hw : ¬ Wants T r tlv := not_wants_of_not_revision hrev
    rw [handled_of_other hrev, valueTrace, afterValue, if_neg hw, if_neg hw]
    simp [hi, hn]

variable (H s st) in
/-- The position behind the read of a header, where the value is read. -/
def behindHeader : σ := H.afterRead (H.seek s st.dataOff) ImageTlv.size

/-- A round whose seek succeeds and whose reads do not fail. -/
theorem run_fileScanBody (htest : sizeT (st.dataOff + ImageTlv.size) ≤ tlvsEndOff)
    (hseek : H.seekRc s st.dataOff = 0)
    (hhdr : 0 ≤ (H.read (H.seek s st.dataOff) ImageTlv.size).rc)
    (htlv : st.tlv.load (H.read (H.seek s st.dataOff) ImageTlv.size).bytes = tlv)
    (hrc : Wants T st.hwRev tlv → 0 ≤ (H.read (H.behindHeader s st) tlv.itLen.toNat).rc) :
    (fileScanBody T tlvsEndOff st).run H s =
        (roundResult T st.dataOff tlv (H.read (H.behindHeader s st) tlv.itLen.toNat).bytes
          st.hwRev, H.afterValue T (H.behindHeader s st) tlv st.hwRev) ∧
      (fileScanBody T tlvsEndOff st).trace H s =
        ⟨FsCall.fsSeek st.dataOff, (0 : ℤ)⟩ ::
          ⟨FsCall.fsRead ImageTlv.size, H.read (H.seek s st.dataOff) ImageTlv.size⟩ ::
          H.valueTrace T (H.behindHeader s st) tlv st.hwRev := by
  obtain ⟨hrun, htrace⟩ := handle hrc
  rw [behindHeader] at hrun htrace ⊢
  rw [fileScanBody, roundResult, afterHandler]
  constructor
  · simp [htest, hseek, not_lt.mpr hhdr, htlv, hrun]
    split_ifs <;> rfl
  · simp [htest, hseek, not_lt.mpr hhdr, htlv, hrun, htrace]

/-- The round that ends the loop. -/
theorem run_fileScanBody_of_lt (htest : tlvsEndOff < sizeT (st.dataOff + ImageTlv.size)) :
    (fileScanBody T tlvsEndOff st).run H s = (.inr (false, st.hwRev), s) ∧
      (fileScanBody T tlvsEndOff st).trace H s = [] := by
  rw [fileScanBody, if_neg (Nat.not_le.mpr htest)]
  exact ⟨rfl, rfl⟩

end FsFile

end FwLoader.Image
