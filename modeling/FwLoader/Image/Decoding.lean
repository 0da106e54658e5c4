import FwLoader.Image.FlashWalk

/-!
# Decoding a well-formed image

On an image whose protected area is a list of TLVs with the unprotected TLV info header behind it,
the scan of the flash area returns the hardware revision that was encoded. The scan goes four bytes
too far and takes that info header for one more TLV, which is harmless as its magic number is
neither Ruuvi type.
-/

namespace FwLoader.Image

open Foundations

section

variable (T : RuuviTlvTypes) (A : FlashArea) (B : List UInt8) (faId : ℤ) (hdr : ImageHeader)
  (ts : List Tlv)

/-- The flash area holds an image whose protected area stores the TLVs `ts`. -/
structure WellFormed : Prop where
  holds : A.Holds B
  accepts : A.Accepts faId hdr
  /-- `it_tlv_tot` counts the info header too. -/
  tot_lt : ImageTlvInfo.size + (Tlv.encodeAll ts).length < 2 ^ 16
  drop_eq : ∃ (n : UInt16) (rest : List UInt8),
    B.drop (hdr.ihHdrSize.toNat + hdr.ihImgSize.toNat) =
      Tlv.header imageTlvProtInfoMagic (ImageTlvInfo.size + (Tlv.encodeAll ts).length) ++
        (Tlv.encodeAll ts ++ (Tlv.header imageTlvInfoMagic n.toNat ++ rest))
  id_atMostOne : AtMostOne T.hwRevId ts
  name_atMostOne : AtMostOne T.hwRevName ts
  info_ne : ¬ IsRevisionType T imageTlvInfoMagic

end

section

variable {T : RuuviTlvTypes} {A : FlashArea} {B rest : List UInt8} {faId : ℤ} {hdr : ImageHeader}
  {ts : List Tlv} {st : ScanState} {n : ℕ} {g : Found}

/-- Behind the TLVs the loop reads the unprotected TLV info header and then ends. -/
private theorem loop_of_info {len : UInt16} (h : A.Holds B)
    (hdrop : B.drop st.dataOff = Tlv.header imageTlvInfoMagic len.toNat ++ rest)
    (hinfo : ¬ IsRevisionType T imageTlvInfoMagic) (hc : ¬ st.hwRev.found.Complete) :
    (Prog.loop (flashScanBody T (st.dataOff + ImageTlv.size)) (n + 2) st).eval A =
      some (false, st.hwRev) := by
  have hsize : ImageTlv.size = 4 := rfl
  have hlen := add_length_le_of_drop_eq hdrop (by rw [Tlv.length_header]; omega)
  rw [Tlv.length_header] at hlen
  have hlt := h.length_lt
  have hbound := len.toNat_lt
  have hread : A.read st.dataOff ImageTlv.size = ⟨0, Tlv.header imageTlvInfoMagic len.toNat⟩ := by
    rw [h.read_eq (by omega), slice_of_drop_eq hdrop (hsize.trans (Tlv.length_header _ _).symm)]
  have htlv : st.tlv.load (A.read st.dataOff ImageTlv.size).bytes = ⟨imageTlvInfoMagic, len⟩ := by
    rw [hread]
    exact st.tlv.load_header _ _
  have hwants : ¬ Wants T st.hwRev ⟨imageTlvInfoMagic, len⟩ := not_wants_of_not_revision hinfo
  have hnext : sizeT (st.dataOff + (ImageTlv.size + len.toNat)) =
      st.dataOff + (ImageTlv.size + len.toNat) := sizeT_of_lt (by omega)
  have hround : (flashScanBody T (st.dataOff + ImageTlv.size) st).eval A =
      .inl ⟨st.dataOff + (ImageTlv.size + len.toNat), ⟨imageTlvInfoMagic, len⟩, st.hwRev⟩ := by
    rw [FlashArea.eval_flashScanBody (by rw [sizeT_of_lt (by omega)]) (by rw [hread]) htlv
      (fun hw => absurd hw hwants), roundResult_of_other hinfo hc, hnext]
  have htest : st.dataOff + ImageTlv.size <
      sizeT (st.dataOff + (ImageTlv.size + len.toNat) + ImageTlv.size) := by
    rw [sizeT_of_lt (by omega)]
    omega
  rw [Prog.eval_loop_inl hround]
  exact Prog.eval_loop_inr (FlashArea.flashScanBody_of_lt htest).1

/-- The loop over the protected area ends as the search through its TLVs does; a search without end
is a failure. -/
private theorem loop_of_wellFormed {len : UInt16} (h : A.Holds B)
    (hdrop : B.drop st.dataOff =
      Tlv.encodeAll ts ++ (Tlv.header imageTlvInfoMagic len.toNat ++ rest))
    (hinfo : ¬ IsRevisionType T imageTlvInfoMagic) (hc : ¬ st.hwRev.found.Complete)
    (hn : ts.length + 2 ≤ n) :
    ∃ ok r, (Prog.loop (flashScanBody T (st.dataOff + (Tlv.encodeAll ts).length + ImageTlv.size))
        n st).eval A = some (ok, r) ∧
      ∀ g, ok = true ∧ r.found = g ↔ scanTlvs T st.hwRev.found ts = .accepted g := by
  by_cases hdec : ∃ g, scanTlvs T st.hwRev.found ts = .undecided g
  · obtain ⟨g, hg⟩ := hdec
    obtain ⟨n, rfl⟩ : ∃ m, n = ts.length + (m + 2) := ⟨n - ts.length - 2, by omega⟩
    obtain ⟨st', cs, hoff, hfound, -, heval, -⟩ :=
      FlashArea.walk h hdrop (Nat.le_add_right _ ImageTlv.size) hg (n + 2)
    have hdrop' : B.drop st'.dataOff = Tlv.header imageTlvInfoMagic len.toNat ++ rest := by
      rw [hoff]
      exact drop_add_of_drop_eq hdrop rfl
    have hc' : ¬ st'.hwRev.found.Complete := by
      rw [hfound]
      exact not_complete_of_scanTlvs hc hg
    rw [← hoff] at heval ⊢
    refine ⟨false, st'.hwRev, heval.trans (loop_of_info h hdrop' hinfo hc'), fun g' => ?_⟩
    simp [hg]
  · have hscan : ∀ g, scanTlvs T st.hwRev.found ts ≠ .undecided g := fun g hg => hdec ⟨g, hg⟩
    obtain ⟨⟨ok, r⟩, heval, hout, -⟩ :=
      FlashArea.loop_of_decided h hdrop (Nat.le_add_right _ ImageTlv.size)
        (by omega : ts.length ≤ n) hscan
    refine ⟨ok, r, heval, fun g => ?_⟩
    cases hv : scanTlvs T st.hwRev.found ts with
    | accepted f =>
      rw [hv] at hout
      obtain ⟨rfl, rfl⟩ := hout
      simp
    | refused =>
      rw [hv] at hout
      have hok : ok = false := hout
      simp [hok]
    | undecided f => exact absurd hv (hscan f)

/-- The scan of an image with a protected area that the TLVs `ts` fill is a loop that has these TLVs
in front of it. As `it_tlv_tot` counts the info header too, the loop bound is four bytes behind
them. -/
theorem find_of_protected (hB : A.Holds B) (ha : A.Accepts faId hdr)
    (htotlt : ImageTlvInfo.size + (Tlv.encodeAll ts).length < 2 ^ 16)
    (hdrop : B.drop (hdr.ihHdrSize.toNat + hdr.ihImgSize.toNat) =
      Tlv.header imageTlvProtInfoMagic (ImageTlvInfo.size + (Tlv.encodeAll ts).length) ++
        (Tlv.encodeAll ts ++ rest)) (prior : FwImageHwRev) :
    ∃ st : ScanState, st.hwRev.found = .none ∧ B.drop st.dataOff = Tlv.encodeAll ts ++ rest ∧
      st.dataOff + (Tlv.encodeAll ts).length ≤ B.length ∧
      (fwImgHwRevFindInFlashArea T faId prior).eval A =
        (Prog.loop (flashScanBody T (st.dataOff + (Tlv.encodeAll ts).length + ImageTlv.size))
          tlvLoopRounds st).eval A := by
  have hlt := hB.length_lt
  have hsize : ImageTlvInfo.size = 4 := rfl
  obtain ⟨tot, htot⟩ : ∃ tot : UInt16,
      tot.toNat = ImageTlvInfo.size + (Tlv.encodeAll ts).length :=
    ⟨UInt16.ofNat _, UInt16.toNat_ofNat_of_lt' htotlt⟩
  rw [← htot] at hdrop
  have hlen := add_length_le_of_drop_eq hdrop (by rw [Tlv.length_header]; omega)
  rw [Tlv.length_header] at hlen
  have hoff : hdr.tlvAreaOff = hdr.ihHdrSize.toNat + hdr.ihImgSize.toNat := sizeT_of_lt (by omega)
  have hhdr : ImageTlvInfo.size = (Tlv.header imageTlvProtInfoMagic tot.toNat).length :=
    hsize.trans (Tlv.length_header _ _).symm
  have hinfo : infoAt B hdr.tlvAreaOff = ⟨imageTlvProtInfoMagic, tot⟩ := by
    rw [infoAt, hoff, slice_of_drop_eq hdrop hhdr, ImageTlvInfo.load_header]
  obtain ⟨heval, -⟩ := FlashArea.find_of_magic_eq (T := T) prior ha
    (hB.read_eq (by omega)) (by rw [hinfo]) (by omega)
  have hdrop' := drop_add_of_drop_eq hdrop hhdr
  have hend : hdr.tlvAreaOff + ImageTlvInfo.size + tot.toNat =
      hdr.tlvAreaOff + ImageTlvInfo.size + (Tlv.encodeAll ts).length + ImageTlv.size := by
    have hsize' : ImageTlv.size = 4 := rfl
    omega
  rw [hinfo, hend] at heval
  rw [← hoff] at hdrop'
  refine ⟨⟨hdr.tlvAreaOff + ImageTlvInfo.size, .zero, prior.reset⟩, prior.found_reset, hdrop', ?_,
    heval⟩
  have hinside := congrArg List.length hdrop'
  rw [List.length_drop, List.length_append] at hinside
  show hdr.tlvAreaOff + ImageTlvInfo.size + _ ≤ _
  omega

/-- The rounds that the TLVs of an area and two more take. -/
theorem rounds_of_tot_lt (htotlt : ImageTlvInfo.size + (Tlv.encodeAll ts).length < 2 ^ 16) :
    ts.length + 2 ≤ tlvLoopRounds := by
  have hfour := Tlv.four_mul_length_le ts
  have hsize : ImageTlvInfo.size = 4 := rfl
  rw [tlvLoopRounds]
  omega

/-- The scan of the TLVs of a well-formed image. -/
private theorem find_of_wellFormed (h : WellFormed T A B faId hdr ts) (prior : FwImageHwRev) :
    ∃ ok r, (fwImgHwRevFindInFlashArea T faId prior).eval A = some (ok, r) ∧
      ∀ g, ok = true ∧ r.found = g ↔ scanTlvs T .none ts = .accepted g := by
  obtain ⟨len, rest, hdrop⟩ := h.drop_eq
  obtain ⟨st, hfound, hdrop', -, heval⟩ :=
    find_of_protected (T := T) h.holds h.accepts h.tot_lt hdrop prior
  rw [heval, ← hfound]
  exact loop_of_wellFormed h.holds hdrop' h.info_ne (by rw [hfound]; decide)
    (rounds_of_tot_lt h.tot_lt)

/-- The scan of a well-formed image succeeds exactly if the image has a usable ID TLV and a usable
name TLV, and then returns what they hold. -/
theorem fwImgHwRevFindInFlashArea_decodes (h : WellFormed T A B faId hdr ts)
    (prior : FwImageHwRev) :
    ∃ ok r, (fwImgHwRevFindInFlashArea T faId prior).eval A = some (ok, r) ∧
      (ok = true ↔ (∃ i ∈ ts, IsHwRevId T i) ∧ ∃ m ∈ ts, IsHwRevName T m) ∧
      ∀ i ∈ ts, IsHwRevId T i → ∀ m ∈ ts, IsHwRevName T m →
        r.hwRevNum.toNat = ofBE i.value ∧ r.hwRevName.cStr = m.value.takeWhile (· ≠ 0) := by
  obtain ⟨ok, r, heval, hres⟩ := find_of_wellFormed h prior
  have hiff : ∀ g, ok = true ∧ r.found = g ↔
      (∃ i ∈ ts, IsHwRevId T i ∧ g.num = ofBE i.value) ∧
        ∃ m ∈ ts, IsHwRevName T m ∧ g.name = m.value.takeWhile (· ≠ 0) := fun g => by
    rw [hres g, scanTlvs_accepted_iff h.id_atMostOne h.name_atMostOne]
  have hboth : ∀ i ∈ ts, IsHwRevId T i → ∀ m ∈ ts, IsHwRevName T m →
      ok = true ∧ r.found = ⟨ofBE i.value, m.value.takeWhile (· ≠ 0)⟩ :=
    fun i hi hid m hm hname => (hiff _).mpr ⟨⟨i, hi, hid, rfl⟩, m, hm, hname, rfl⟩
  refine ⟨ok, r, heval, ⟨fun hok => ?_, ?_⟩, ?_⟩
  · obtain ⟨⟨i, hi, hid, -⟩, m, hm, hname, -⟩ := (hiff r.found).mp ⟨hok, rfl⟩
    exact ⟨⟨i, hi, hid⟩, m, hm, hname⟩
  · rintro ⟨⟨i, hi, hid⟩, m, hm, hname⟩
    exact (hboth i hi hid m hm hname).1
  · intro i hi hid m hm hname
    have hfound := (hboth i hi hid m hm hname).2
    exact ⟨congrArg Found.num hfound, congrArg Found.name hfound⟩

end

/-- Three TLVs: a name, one of another type, and an ID. -/
def sampleTlvs : List Tlv :=
  [⟨0xA1, [65, 0], by decide⟩, ⟨0x50, [1, 2, 3, 4, 5], by decide⟩, ⟨0xA0, [0, 0, 1, 2], by decide⟩]

/-- An image whose protected area stores these TLVs. -/
def sampleImage : List UInt8 :=
  imageWith 27 (Tlv.encodeAll sampleTlvs ++ Tlv.header imageTlvInfoMagic 0)

theorem sampleImage_wellFormed :
    WellFormed sampleTypes (FlashArea.ofBytes sampleImage) sampleImage 1
      (ImageHeader.ofBytes (slice sampleImage 0 ImageHeader.size)) sampleTlvs where
  holds := FlashArea.holds_ofBytes (by decide)
  accepts := FlashArea.accepts_ofBytes sampleImage 1
  tot_lt := by decide
  drop_eq := ⟨0, [], by decide⟩
  id_atMostOne := by decide
  name_atMostOne := by decide
  info_ne := by decide

theorem fwImgHwRevFindInFlashArea_decodes_sample :
    ∃ ok r, (fwImgHwRevFindInFlashArea sampleTypes 1 ⟨7, Buf.zero _⟩).eval
        (FlashArea.ofBytes sampleImage) = some (ok, r) ∧
      ok = true ∧ r.hwRevNum.toNat = 258 ∧ r.hwRevName.cStr = [65] := by
  obtain ⟨ok, r, heval, hok, hres⟩ :=
    fwImgHwRevFindInFlashArea_decodes sampleImage_wellFormed ⟨7, Buf.zero _⟩
  have hid : IsHwRevId sampleTypes ⟨0xA0, [0, 0, 1, 2], by decide⟩ := by decide
  have hname : IsHwRevName sampleTypes ⟨0xA1, [65, 0], by decide⟩ := by decide
  exact ⟨ok, r, heval, hok.mpr ⟨⟨_, by decide, hid⟩, _, by decide, hname⟩,
    hres _ (by decide) hid _ (by decide) hname⟩

end FwLoader.Image
