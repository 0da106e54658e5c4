import FwLoader.Image.Decoding

/-!
# Duplicate revision TLVs

The code notices a second TLV of a type by what the first one has stored, and it stops as soon as
both halves of the revision are there. An ID of 0 and an empty name are therefore not counted, and
TLVs behind the last half that was missing are not looked at.
-/

namespace FwLoader.Image

open Foundations

/-! ## Lists in which only the last TLV of a type counts -/

section

variable {type : UInt16} {blank usable : Tlv → Prop} {t : Tlv} {us : List Tlv}

/-- There are TLVs of this type, all but the last one `blank` and the last one `usable`. -/
def LastCounts (type : UInt16) (blank usable : Tlv → Prop) (us : List Tlv) : Prop :=
  ∃ zs t, us.filter (·.type = type) = zs ++ [t] ∧ (∀ z ∈ zs, blank z) ∧ usable t

/-- There are no TLVs of this type. -/
def Absent (type : UInt16) (us : List Tlv) : Prop := us.filter (·.type = type) = []

theorem not_lastCounts_nil : ¬LastCounts type blank usable [] := by
  rintro ⟨zs, t, heq, -⟩
  exact absurd heq.symm (by simp)

theorem absent_nil : Absent type [] := rfl

theorem absent_cons_of_eq (ht : t.type = type) : ¬Absent type (t :: us) := by
  intro habsent
  rw [Absent, List.filter_cons_of_pos (by simpa using ht)] at habsent
  exact absurd habsent (List.cons_ne_nil _ _)

theorem absent_cons_of_ne (ht : t.type ≠ type) : Absent type (t :: us) ↔ Absent type us := by
  rw [Absent, List.filter_cons_of_neg (by simpa using ht), Absent]

theorem lastCounts_cons_of_ne (ht : t.type ≠ type) :
    LastCounts type blank usable (t :: us) ↔ LastCounts type blank usable us := by
  rw [LastCounts, List.filter_cons_of_neg (by simpa using ht), LastCounts]

/-- The first TLV of the type is the last one or is followed by others. -/
theorem lastCounts_cons_of_eq (ht : t.type = type) :
    LastCounts type blank usable (t :: us) ↔
      usable t ∧ Absent type us ∨ blank t ∧ LastCounts type blank usable us := by
  rw [LastCounts, List.filter_cons_of_pos (by simpa using ht)]
  constructor
  · rintro ⟨zs, x, heq, hblank, husable⟩
    rcases zs with _ | ⟨z, zs⟩
    · obtain ⟨rfl, hnil⟩ := List.cons.inj heq
      exact .inl ⟨husable, hnil⟩
    · obtain ⟨rfl, hrest⟩ := List.cons.inj heq
      rw [List.forall_mem_cons] at hblank
      exact .inr ⟨hblank.1, zs, x, hrest, hblank.2, husable⟩
  · rintro (⟨husable, habsent⟩ | ⟨hblank, zs, x, heq, hblanks, husable⟩)
    · exact ⟨[], t, by rw [habsent, List.nil_append], by simp, husable⟩
    · exact ⟨t :: zs, x, by rw [heq, List.cons_append], List.forall_mem_cons.mpr ⟨hblank, hblanks⟩,
        husable⟩

/-! A half that has been found (`p`) is to have no more TLVs, one that has not is to be filled. -/

section

variable {p q : Prop} [Decidable p] [Decidable q]

/-- A TLV of another type makes no difference to the half. -/
theorem half_cons_of_ne (ht : t.type ≠ type) :
    (if p then Absent type (t :: us) else LastCounts type blank usable (t :: us)) ↔
      if p then Absent type us else LastCounts type blank usable us := by
  rw [absent_cons_of_ne ht, lastCounts_cons_of_ne ht]

/-- A TLV of the type fills the half (`q`), or it is blank and leaves that to others. -/
theorem half_cons_of_eq (ht : t.type = type) (hp : ¬p) (husable : usable t ↔ q)
    (hblank : blank t ↔ ¬q) :
    (if p then Absent type (t :: us) else LastCounts type blank usable (t :: us)) ↔
      if q then Absent type us else LastCounts type blank usable us := by
  rw [if_neg hp, lastCounts_cons_of_eq ht, husable, hblank]
  by_cases hq : q
  · simp only [hq, not_true_eq_false, true_and, false_and, or_false, if_true]
  · simp only [hq, not_false_eq_true, true_and, false_and, false_or, if_false]

/-- Where a TLV of the type is the first one, the half has not been found, and the TLV is usable or
blank. -/
theorem not_found_of_half_cons (ht : t.type = type)
    (h : if p then Absent type (t :: us) else LastCounts type blank usable (t :: us)) :
    ¬p ∧ (usable t ∨ blank t) := by
  by_cases hp : p
  · rw [if_pos hp] at h
    exact absurd h (absent_cons_of_eq ht)
  · rw [if_neg hp, lastCounts_cons_of_eq ht] at h
    exact ⟨hp, h.imp And.left And.left⟩

end

end

/-! ## Lists that complete the revision -/

section

variable (T : RuuviTlvTypes)

/-- An ID TLV that leaves no trace: four zero bytes. -/
def IsBlankId (t : Tlv) : Prop := t.value.length = 4 ∧ ofBE t.value = 0

/-- A name TLV that leaves no trace: its value is empty or begins with a NUL. -/
def IsBlankName (t : Tlv) : Prop :=
  t.value.length ≤ fwInfoHwRevNameMaxLen ∧ t.value.takeWhile (· ≠ 0) = []

/-- Of a half that has been found, no TLV follows; of one that has not, the last TLV is usable and
those in front of it have left no trace. -/
structure Completing (f : Found) (us : List Tlv) : Prop where
  id : if f.num ≠ 0 then Absent T.hwRevId us
    else LastCounts T.hwRevId IsBlankId (IsHwRevId T) us
  name : if f.name ≠ [] then Absent T.hwRevName us
    else LastCounts T.hwRevName IsBlankName (IsHwRevName T) us

variable {T} {f : Found} {t : Tlv} {us ts : List Tlv}

/-- Nothing more is needed of a complete revision only. -/
theorem completing_nil_iff : Completing T f [] ↔ f.Complete := by
  constructor
  · rintro ⟨hid, hname⟩
    constructor
    · intro hzero
      rw [if_neg (not_not_intro hzero)] at hid
      exact not_lastCounts_nil hid
    · intro hempty
      rw [if_neg (not_not_intro hempty)] at hname
      exact not_lastCounts_nil hname
  · intro hc
    exact ⟨by rw [if_pos hc.1]; exact absent_nil, by rw [if_pos hc.2]; exact absent_nil⟩

theorem completing_iff : Completing T f us ↔
    (if f.num ≠ 0 then Absent T.hwRevId us
      else LastCounts T.hwRevId IsBlankId (IsHwRevId T) us) ∧
    if f.name ≠ [] then Absent T.hwRevName us
      else LastCounts T.hwRevName IsBlankName (IsHwRevName T) us :=
  ⟨fun h => ⟨h.id, h.name⟩, fun h => ⟨h.1, h.2⟩⟩

/-- A TLV that is taken leaves the rest to be completed. -/
theorem completing_cons_of_takes (h : Takes T f t.type t.value.length) :
    Completing T f (t :: us) ↔ Completing T (f.take T t.type t.value) us := by
  rw [completing_iff, completing_iff]
  rcases h with ⟨hi, hlen, hnum⟩ | ⟨hn, hlen, hname⟩
  · have hne : t.type ≠ T.hwRevName := fun h => T.id_ne_name (hi.trans h)
    have htake : f.take T t.type t.value = ⟨ofBE t.value, f.name⟩ := if_pos hi
    have husable : IsHwRevId T t ↔ ofBE t.value ≠ 0 := by simp [IsHwRevId, hi, hlen]
    have hblank : IsBlankId t ↔ ¬ofBE t.value ≠ 0 := by simp [IsBlankId, hlen]
    rw [htake]
    exact and_congr (half_cons_of_eq hi.symm (not_not_intro hnum) husable hblank)
      (half_cons_of_ne hne)
  · have hne : t.type ≠ T.hwRevId := fun h => T.id_ne_name (h.symm.trans hn.symm)
    have htake : f.take T t.type t.value = ⟨f.num, t.value.takeWhile (· ≠ 0)⟩ :=
      if_neg fun h => hne h.symm
    have husable : IsHwRevName T t ↔ t.value.takeWhile (· ≠ 0) ≠ [] := by
      rw [takeWhile_ne_nil_iff, IsHwRevName]
      simp [hn, hlen]
    have hblank : IsBlankName t ↔ ¬t.value.takeWhile (· ≠ 0) ≠ [] := by
      rw [IsBlankName, not_not, and_iff_right hlen]
    rw [htake]
    exact and_congr (half_cons_of_ne hne)
      (half_cons_of_eq hn.symm (not_not_intro hname) husable hblank)

/-- A revision TLV that is refused stands in no list that completes the revision. -/
theorem not_completing_cons_of_refused (hno : ¬Takes T f t.type t.value.length)
    (hrev : IsRevisionType T t.type) : ¬Completing T f (t :: us) := by
  intro hc
  rcases hrev with hi | hn
  · obtain ⟨hnum, hvalue⟩ := not_found_of_half_cons hi.symm hc.id
    have hlen : t.value.length = 4 := hvalue.elim (fun h => h.2.1) And.left
    exact hno (.inl ⟨hi, hlen, not_not.mp hnum⟩)
  · obtain ⟨hname, hvalue⟩ := not_found_of_half_cons hn.symm hc.name
    have hlen : t.value.length ≤ fwInfoHwRevNameMaxLen := hvalue.elim (fun h => h.2.2.1) And.left
    exact hno (.inr ⟨hn, hlen, not_not.mp hname⟩)

/-- A TLV of another type makes no difference. -/
theorem completing_cons_of_other (hrev : ¬IsRevisionType T t.type) :
    Completing T f (t :: us) ↔ Completing T f us := by
  have hid : t.type ≠ T.hwRevId := fun h => hrev (.inl h.symm)
  have hname : t.type ≠ T.hwRevName := fun h => hrev (.inr h.symm)
  rw [completing_iff, completing_iff, half_cons_of_ne hid, half_cons_of_ne hname]

/-- A search ends with a revision exactly if a front part of the list completes it. The induction is
on the list; its first TLV is taken, refused or passed over. -/
theorem scanTlvs_accepts_iff :
    (f.Complete ∨ ∃ g, scanTlvs T f ts = .accepted g) ↔ ∃ us, us <+: ts ∧ Completing T f us := by
  induction ts generalizing f with
  | nil =>
    simp only [scanTlvs, List.prefix_nil, exists_eq_left, completing_nil_iff, reduceCtorEq,
      exists_false, or_false]
  | cons t ts ih =>
    have hfront : (∃ us, us <+: t :: ts ∧ Completing T f us) ↔
        f.Complete ∨ ∃ us, us <+: ts ∧ Completing T f (t :: us) := by
      rw [← completing_nil_iff (T := T)]
      constructor
      · rintro ⟨us, hus, hc⟩
        rcases List.prefix_cons_iff.mp hus with rfl | ⟨us', rfl, hus'⟩
        · exact .inl hc
        · exact .inr ⟨us', hus', hc⟩
      · rintro (hc | ⟨us, hus, hc⟩)
        · exact ⟨[], List.nil_prefix, hc⟩
        · exact ⟨t :: us, List.cons_prefix_cons.mpr ⟨rfl, hus⟩, hc⟩
    rw [hfront]
    by_cases hcomplete : f.Complete
    · exact iff_of_true (.inl hcomplete) (.inl hcomplete)
    rw [or_iff_right hcomplete, or_iff_right hcomplete, scanTlvs, tlvStep]
    by_cases htakes : Takes T f t.type t.value.length
    · rw [if_pos htakes]
      simp only [completing_cons_of_takes htakes, ← ih]
      by_cases hc : (f.take T t.type t.value).Complete
      · rw [Found.verdict_of_complete hc, Verdict.andThen]
        exact iff_of_true ⟨_, rfl⟩ (.inl hc)
      · rw [Found.verdict_of_not_complete hc, Verdict.andThen, or_iff_right hc]
    by_cases hrev : IsRevisionType T t.type
    · rw [if_neg htakes, if_pos hrev, Verdict.andThen]
      refine iff_of_false (by simp) ?_
      rintro ⟨us, -, hc⟩
      exact not_completing_cons_of_refused htakes hrev hc
    · rw [if_neg htakes, if_neg hrev, Found.verdict_of_not_complete hcomplete, Verdict.andThen]
      simp only [completing_cons_of_other hrev, ← ih, or_iff_right hcomplete]

end

/-! ## Images with such lists -/

/-- The flash area holds an image whose protected area is filled by the TLVs `ts`; `rest` is what
the area holds behind it. -/
structure ProtectedTlvs (A : FlashArea) (B : List UInt8) (faId : ℤ) (hdr : ImageHeader)
    (ts : List Tlv) (rest : List UInt8) : Prop where
  holds : A.Holds B
  accepts : A.Accepts faId hdr
  tot_lt : ImageTlvInfo.size + (Tlv.encodeAll ts).length < 2 ^ 16
  drop_eq : B.drop (hdr.ihHdrSize.toNat + hdr.ihImgSize.toNat) =
    Tlv.header imageTlvProtInfoMagic (ImageTlvInfo.size + (Tlv.encodeAll ts).length) ++
      (Tlv.encodeAll ts ++ rest)

/-- The revision is complete after the first TLVs of the area, after all of them, or after one more
TLV that happens to be stored behind the area. -/
def CompletesEarly (T : RuuviTlvTypes) (ts : List Tlv) (rest : List UInt8) : Prop :=
  ∃ us, Completing T .none us ∧
    (us <+: ts ∨ ∃ t rest', rest = Tlv.encode t ++ rest' ∧ us = ts ++ [t])

/-- Two TLVs of the list are ID TLVs, or two are name TLVs. -/
def HasDuplicate (T : RuuviTlvTypes) (ts : List Tlv) : Prop :=
  ¬AtMostOne T.hwRevId ts ∨ ¬AtMostOne T.hwRevName ts

instance (T : RuuviTlvTypes) (ts : List Tlv) : Decidable (HasDuplicate T ts) :=
  inferInstanceAs (Decidable (_ ∨ _))

section

variable {T : RuuviTlvTypes} {A : FlashArea} {B rest : List UInt8} {faId : ℤ} {hdr : ImageHeader}
  {ts : List Tlv} {st : ScanState} {n : ℕ} {t : Tlv}

theorem completesEarly_iff :
    CompletesEarly T ts rest ↔ (∃ g, scanTlvs T .none ts = .accepted g) ∨
      ∃ t rest' g, rest = Tlv.encode t ++ rest' ∧ scanTlvs T .none (ts ++ [t]) = .accepted g := by
  have hc : ¬Found.none.Complete := by decide
  have hiff : ∀ us : List Tlv, (∃ g, scanTlvs T .none us = .accepted g) ↔
      ∃ vs, vs <+: us ∧ Completing T .none vs := fun us => by
    rw [← scanTlvs_accepts_iff, or_iff_right hc]
  constructor
  · rintro ⟨us, hus, hts | ⟨t, rest', rfl, rfl⟩⟩
    · exact .inl ((hiff ts).mpr ⟨us, hts, hus⟩)
    · obtain ⟨g, hg⟩ := (hiff (ts ++ [t])).mpr ⟨_, List.prefix_rfl, hus⟩
      exact .inr ⟨t, rest', g, rfl, hg⟩
  · rintro (hacc | ⟨t, rest', g, rfl, hg⟩)
    · obtain ⟨us, hts, hus⟩ := (hiff ts).mp hacc
      exact ⟨us, hus, .inl hts⟩
    · obtain ⟨us, hts, hus⟩ := (hiff (ts ++ [t])).mp ⟨g, hg⟩
      rcases List.prefix_concat_iff.mp hts with rfl | hts
      · exact ⟨_, hus, .inr ⟨t, rest', rfl, rfl⟩⟩
      · exact ⟨us, hus, .inl hts⟩

/-! ## The round behind the area -/

/-- A round that goes on from the last position is followed by a test that fails. -/
theorem loop_of_last_inl {r : FwImageHwRev} {tlv : ImageTlv} (hlt : st.dataOff < 2 ^ 31 + 2 ^ 17)
    (hround : (flashScanBody T (st.dataOff + ImageTlv.size) st).eval A =
      .inl ⟨sizeT (st.dataOff + (ImageTlv.size + tlv.itLen.toNat)), tlv, r⟩) :
    (Prog.loop (flashScanBody T (st.dataOff + ImageTlv.size)) (n + 2) st).eval A =
      some (false, r) := by
  have hlen := tlv.itLen.toNat_lt
  have hsize : ImageTlv.size = 4 := rfl
  have htest : st.dataOff + ImageTlv.size <
      sizeT (sizeT (st.dataOff + (ImageTlv.size + tlv.itLen.toNat)) + ImageTlv.size) := by
    have hnext : sizeT (st.dataOff + (ImageTlv.size + tlv.itLen.toNat)) =
        st.dataOff + (ImageTlv.size + tlv.itLen.toNat) := sizeT_of_lt (by omega)
    rw [hnext, sizeT_of_lt (by omega)]
    omega
  rw [Prog.eval_loop_inl hround]
  exact Prog.eval_loop_inr (FlashArea.flashScanBody_of_lt htest).1

/-- With a TLV behind the area, the loop goes by that TLV. -/
theorem loop_of_last_tlv (h : A.Holds B) (hdrop : B.drop st.dataOff = t.encode ++ rest) :
    ∃ ok r, (Prog.loop (flashScanBody T (st.dataOff + ImageTlv.size)) (n + 2) st).eval A =
        some (ok, r) ∧ (ok = true ↔ ∃ g, tlvStep T st.hwRev.found t = .accepted g) := by
  have hin := Tlv.add_length_encode_le hdrop
  have hlt := h.length_lt
  obtain ⟨hshows, -⟩ := FlashArea.round_of_tlv (T := T) h hdrop le_rfl
  cases hstep : tlvStep T st.hwRev.found t with
  | accepted g =>
    rw [hstep] at hshows
    obtain ⟨r, hres, -⟩ := hshows
    exact ⟨true, r, Prog.eval_loop_inr hres, by simp⟩
  | refused =>
    rw [hstep] at hshows
    obtain ⟨r, hres⟩ := hshows
    exact ⟨false, r, Prog.eval_loop_inr hres, by simp⟩
  | undecided g =>
    rw [hstep] at hshows
    obtain ⟨r, hres, -⟩ := hshows
    exact ⟨false, r, loop_of_last_inl (by omega) hres, by simp⟩

/-- Without one the scan fails: a read leaves the flash area, or the header found is refused or
passed over. -/
theorem loop_of_last_cut (h : A.Holds B) (hoff : st.dataOff ≤ B.length)
    (hcut : Tlv.Cut (B.drop st.dataOff)) (hc : ¬st.hwRev.found.Complete) :
    ∃ r, (Prog.loop (flashScanBody T (st.dataOff + ImageTlv.size)) (n + 2) st).eval A =
      some (false, r) := by
  have hsize : ImageTlv.size = 4 := rfl
  have hlt := h.length_lt
  have htest : sizeT (st.dataOff + ImageTlv.size) ≤ st.dataOff + ImageTlv.size := by
    rw [sizeT_of_lt (by omega)]
  rcases hcut with hshort | ⟨type, len, tail, hdrop, htail⟩
  · rw [List.length_drop] at hshort
    have hrc := h.read_oob (show B.length < st.dataOff + ImageTlv.size by omega)
    exact ⟨_, Prog.eval_loop_inr (FlashArea.eval_flashScanBody_of_header_ne htest hrc)⟩
  have hlen := congrArg List.length hdrop
  rw [List.length_drop, List.length_append, Tlv.length_header] at hlen
  have hhdr : ImageTlv.size = (Tlv.header type len.toNat).length := (Tlv.length_header _ _).symm
  have hread : A.read st.dataOff ImageTlv.size = ⟨0, Tlv.header type len.toNat⟩ := by
    rw [h.read_eq (by omega), slice_of_drop_eq hdrop hhdr]
  have htlv : st.tlv.load (A.read st.dataOff ImageTlv.size).bytes = ⟨type, len⟩ := by
    rw [hread]
    exact st.tlv.load_header _ _
  by_cases hw : Wants T st.hwRev ⟨type, len⟩
  · have hvalue : (A.valueRead ⟨type, len⟩ st.dataOff).rc ≠ 0 := by
      rw [FlashArea.valueRead, sizeT_of_lt (by omega)]
      refine h.read_oob ?_
      show B.length < st.dataOff + ImageTlv.size + len.toNat
      omega
    obtain ⟨r, hround⟩ :=
      FlashArea.eval_flashScanBody_of_value_ne htest (by rw [hread]) htlv hw hvalue
    exact ⟨r, Prog.eval_loop_inr hround⟩
  have hround := FlashArea.eval_flashScanBody htest (by rw [hread]) htlv fun hw' => absurd hw' hw
  by_cases hrev : IsRevisionType T type
  · rw [roundResult_of_refused hw hrev] at hround
    exact ⟨_, Prog.eval_loop_inr hround⟩
  · rw [roundResult_of_other hrev hc] at hround
    exact ⟨_, loop_of_last_inl (by omega) hround⟩

/-- At the end of the area the loop accepts exactly if a TLV that happens to be stored there completes
the revision. -/
theorem loop_of_last (h : A.Holds B) (hoff : st.dataOff ≤ B.length) (hdrop : B.drop st.dataOff = rest)
    (hc : ¬st.hwRev.found.Complete) :
    ∃ ok r, (Prog.loop (flashScanBody T (st.dataOff + ImageTlv.size)) (n + 2) st).eval A =
        some (ok, r) ∧
      (ok = true ↔ ∃ t rest' g, rest = Tlv.encode t ++ rest' ∧
        tlvStep T st.hwRev.found t = .accepted g) := by
  by_cases hcut : Tlv.Cut rest
  · obtain ⟨r, hout⟩ := loop_of_last_cut (n := n) h hoff (hdrop.symm ▸ hcut) hc
    refine ⟨false, r, hout, iff_of_false (by simp) ?_⟩
    rintro ⟨t, rest', g, rfl, -⟩
    exact Tlv.not_cut_encode_append t rest' hcut
  · obtain ⟨t, rest', rfl⟩ := Tlv.exists_encode_of_not_cut hcut
    obtain ⟨ok, r, hout, hok⟩ := loop_of_last_tlv (T := T) (n := n) h hdrop
    refine ⟨ok, r, hout, fun h => ?_, ?_⟩
    · obtain ⟨g, hg⟩ := hok.mp h
      exact ⟨t, rest', g, rfl, hg⟩
    · rintro ⟨t', rest'', g, heq, hg⟩
      obtain ⟨ok', r', hout', hok'⟩ := loop_of_last_tlv (T := T) (n := n) h (hdrop.trans heq)
      rw [hout] at hout'
      obtain ⟨rfl, -⟩ := Prod.mk.inj (Option.some.inj hout')
      exact hok'.mpr ⟨g, hg⟩

/-! ## The scan -/

theorem completesEarly_of_decided (hdec : ∀ g, scanTlvs T .none ts ≠ .undecided g) :
    CompletesEarly T ts rest ↔ ∃ g, scanTlvs T .none ts = .accepted g := by
  rw [completesEarly_iff, or_iff_left_of_imp]
  rintro ⟨t, rest', g, -, hg⟩
  rw [scanTlvs_append_eq] at hg
  cases hv : scanTlvs T .none ts with
  | accepted f => exact ⟨f, rfl⟩
  | refused =>
    rw [hv] at hg
    exact absurd hg (by simp [Verdict.andThen])
  | undecided f => exact absurd hv (hdec f)

theorem completesEarly_of_undecided {f : Found} (hf : scanTlvs T .none ts = .undecided f) :
    CompletesEarly T ts rest ↔
      ∃ t rest' g, rest = Tlv.encode t ++ rest' ∧ tlvStep T f t = .accepted g := by
  have hlast : ∀ t, scanTlvs T .none (ts ++ [t]) = scanTlvs T f [t] := fun t => scanTlvs_append hf
  rw [completesEarly_iff, hf]
  simp only [reduceCtorEq, exists_false, false_or, hlast]
  refine exists_congr fun t => exists_congr fun rest' => exists_congr fun g =>
    and_congr_right fun _ => ?_
  rw [scanTlvs]
  cases tlvStep T f t with
  | accepted f' => rfl
  | refused => rfl
  | undecided f' => simp [Verdict.andThen, scanTlvs]

/-- The scan of an image succeeds exactly if the revision is complete early enough. -/
theorem find_accepts_iff_completesEarly (h : ProtectedTlvs A B faId hdr ts rest)
    (prior : FwImageHwRev) :
    ∃ ok r, (fwImgHwRevFindInFlashArea T faId prior).eval A = some (ok, r) ∧
      (ok = true ↔ CompletesEarly T ts rest) := by
  obtain ⟨st, hfound, hdrop, hinside, heval⟩ :=
    find_of_protected (T := T) h.holds h.accepts h.tot_lt h.drop_eq prior
  have hrounds := rounds_of_tot_lt h.tot_lt
  rw [heval]
  by_cases hdec : ∃ f, scanTlvs T .none ts = .undecided f
  · -- the search goes on behind the area
    obtain ⟨f, hf⟩ := hdec
    obtain ⟨n, hn⟩ : ∃ m, tlvLoopRounds = ts.length + (m + 2) :=
      ⟨tlvLoopRounds - ts.length - 2, by omega⟩
    obtain ⟨st', cs, hoff, hfound', -, hwalk, -⟩ :=
      FlashArea.walk h.holds hdrop (Nat.le_add_right _ ImageTlv.size) (hfound ▸ hf) (n + 2)
    have hdrop' : B.drop st'.dataOff = rest := by
      rw [hoff]
      exact drop_add_of_drop_eq hdrop rfl
    have hc : ¬st'.hwRev.found.Complete := by
      rw [hfound']
      exact not_complete_of_scanTlvs (by decide) hf
    rw [hn, hwalk, ← hoff, completesEarly_of_undecided hf, ← hfound']
    exact loop_of_last h.holds (hoff ▸ hinside) hdrop' hc
  · -- the search ends within the area, and the loop with it
    have hscan : ∀ f, scanTlvs T .none ts ≠ .undecided f := fun f hf => hdec ⟨f, hf⟩
    obtain ⟨⟨ok, r⟩, hout, hdecides, -⟩ := FlashArea.loop_of_decided h.holds hdrop
      (Nat.le_add_right _ ImageTlv.size) (by omega : ts.length ≤ tlvLoopRounds) (hfound ▸ hscan)
    refine ⟨ok, r, hout, ?_⟩
    rw [completesEarly_of_decided hscan]
    rw [hfound] at hdecides
    cases hv : scanTlvs T .none ts with
    | accepted g =>
      rw [hv] at hdecides
      exact iff_of_true hdecides.1 ⟨g, rfl⟩
    | refused =>
      rw [hv] at hdecides
      have hok : ok = false := hdecides
      exact iff_of_false (by simp [hok]) (by simp)
    | undecided f => exact absurd hv (hscan f)

/-- An image with two ID TLVs or two name TLVs is refused exactly if its revision is not complete
before the second one is noticed. -/
theorem duplicate_refused_iff (h : ProtectedTlvs A B faId hdr ts rest) (prior : FwImageHwRev) :
    HasDuplicate T ts →
      ((∃ r, (fwImgHwRevFindInFlashArea T faId prior).eval A = some (false, r)) ↔
        ¬CompletesEarly T ts rest) := by
  intro _
  obtain ⟨ok, r, hout, hok⟩ := find_accepts_iff_completesEarly (T := T) h prior
  rw [← hok, hout]
  cases ok <;> simp

end

/-- Two IDs in front of a name. -/
def refusedTlvs : List Tlv :=
  [⟨0xA0, [0, 0, 0, 1], by decide⟩, ⟨0xA0, [0, 0, 0, 2], by decide⟩, ⟨0xA1, [65], by decide⟩]

/-- Two IDs, the second one behind the name, which is where the scan stops. -/
def duplicateTlvs : List Tlv :=
  [⟨0xA0, [0, 0, 0, 1], by decide⟩, ⟨0xA1, [65], by decide⟩, ⟨0xA0, [0, 0, 0, 2], by decide⟩]

/-- An image whose protected area, at the end of the flash area, stores the TLVs `ts`. -/
def imageOf (ts : List Tlv) : List UInt8 :=
  imageWith (ImageTlvInfo.size + (Tlv.encodeAll ts).length) (Tlv.encodeAll ts)

theorem duplicate_refused_iff_sample : ¬CompletesEarly sampleTypes refusedTlvs [] :=
  have hprotected : ProtectedTlvs (FlashArea.ofBytes (imageOf refusedTlvs)) (imageOf refusedTlvs) 1
      (ImageHeader.ofBytes (slice (imageOf refusedTlvs) 0 ImageHeader.size)) refusedTlvs [] :=
    { holds := FlashArea.holds_ofBytes (by decide)
      accepts := FlashArea.accepts_ofBytes _ 1
      tot_lt := by decide
      drop_eq := by decide }
  (duplicate_refused_iff hprotected ⟨0, Buf.zero _⟩ (by decide)).mp
    ⟨⟨1, Buf.zero _⟩, by decide⟩

/-- An image that is accepted with the first of its two IDs. -/
theorem duplicateTlvs_accepted :
    HasDuplicate sampleTypes duplicateTlvs ∧
      ProtectedTlvs (FlashArea.ofBytes (imageOf duplicateTlvs)) (imageOf duplicateTlvs) 1
        (ImageHeader.ofBytes (slice (imageOf duplicateTlvs) 0 ImageHeader.size)) duplicateTlvs [] ∧
      ∃ r, (fwImgHwRevFindInFlashArea sampleTypes 1 ⟨0, Buf.zero _⟩).eval
        (FlashArea.ofBytes (imageOf duplicateTlvs)) = some (true, r) :=
  have hprotected : ProtectedTlvs (FlashArea.ofBytes (imageOf duplicateTlvs))
      (imageOf duplicateTlvs) 1
      (ImageHeader.ofBytes (slice (imageOf duplicateTlvs) 0 ImageHeader.size)) duplicateTlvs [] :=
    { holds := FlashArea.holds_ofBytes (by decide)
      accepts := FlashArea.accepts_ofBytes _ 1
      tot_lt := by decide
      drop_eq := by decide }
  ⟨by decide, hprotected, ⟨1, (Buf.zero _).write [65]⟩, by decide⟩

end FwLoader.Image
