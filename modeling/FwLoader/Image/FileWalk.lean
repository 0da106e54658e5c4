import FwLoader.Image.Round

/-!
# Walking through an update file

A file that holds the bytes `F` is read at a position that the reads move on; `fs_read` stops short
at the end of the file. The position is part of the state of the file system, which is not known
otherwise: `Serves` says how it is tied to the calls. As for the flash area, the loop follows the
search `scanTlvs` through TLVs that the file holds in full.
-/

namespace FwLoader.Image

open Foundations

namespace FsFile

variable {σ : Type}

/-- The calls behave as on a file that holds `F`; `At s pos` says that the file is at position `pos`
in state `s`. Positions are of type `off_t`, which has 31 bits and a sign. -/
structure Serves (H : FsFile σ) (F : List UInt8) (At : σ → ℕ → Prop) : Prop where
  length_lt : F.length < 2 ^ 31
  seek_ok : ∀ s {off : ℕ}, off ≤ F.length → H.seekRc s off = 0 ∧ At (H.seek s off) off
  read_eq : ∀ {s pos} len, At s pos →
    H.read s len = ⟨((slice F pos len).length : ℤ), slice F pos len⟩
  at_afterRead : ∀ {s pos} len, At s pos → At (H.afterRead s len) (pos + (slice F pos len).length)

/-- The calls behave as on a file that holds `F`; seeks past its end may fail. -/
structure ServesSought (H : FsFile σ) (F : List UInt8) (At : σ → ℕ → Prop) : Prop
    extends Serves H F At where
  at_seek : ∀ s {off : ℕ}, H.seekRc s off = 0 → At (H.seek s off) off

/-- The calls behave as on a file that holds `F`, and seeking past its end succeeds. -/
structure ServesPastEnd (H : FsFile σ) (F : List UInt8) (At : σ → ℕ → Prop) : Prop
    extends Serves H F At where
  seek_past : ∀ s {off : ℕ}, F.length < off → H.seekRc s off = 0 ∧ At (H.seek s off) off

theorem ServesPastEnd.toServesSought {H : FsFile σ} {F : List UInt8} {At : σ → ℕ → Prop}
    (h : H.ServesPastEnd F At) : H.ServesSought F At where
  toServes := h.toServes
  at_seek s off _ := by
    rcases Nat.lt_or_ge F.length off with hlt | hle
    · exact (h.seek_past s hlt).2
    · exact (h.seek_ok s hle).2

/-- A read that stored as many bytes as were asked for, or another call. -/
def FullRead (e : Event fsApi) : Prop :=
  match e with
  | ⟨.fsRead len, a⟩ => a.bytes.length = len
  | ⟨.fsSeek _, _⟩ => True

/-! ## A file of given contents -/

/-- A file that holds `F`, in a state that is its position. -/
def ofBytes (F : List UInt8) : FsFile ℕ where
  answer
    | _, .fsSeek _ => (0 : ℤ)
    | pos, .fsRead len => (⟨(slice F pos len).length, slice F pos len⟩ : ReadAnswer)
  next
    | _, .fsSeek off => off
    | pos, .fsRead len => pos + (slice F pos len).length

/-- As `ofBytes`, except that seeks to offsets that an `off_t` does not hold fail with `-EINVAL`. -/
def ofBytesBelow (F : List UInt8) : FsFile ℕ where
  answer
    | _, .fsSeek off => if off < 2 ^ 31 then (0 : ℤ) else -22
    | pos, .fsRead len => (⟨(slice F pos len).length, slice F pos len⟩ : ReadAnswer)
  next
    | pos, .fsSeek off => if off < 2 ^ 31 then off else pos
    | pos, .fsRead len => pos + (slice F pos len).length

theorem servesSought_ofBytesBelow {F : List UInt8} (h : F.length < 2 ^ 31) :
    (ofBytesBelow F).ServesSought F Eq where
  length_lt := h
  seek_ok s off hoff := ⟨if_pos (hoff.trans_lt h), if_pos (hoff.trans_lt h)⟩
  read_eq := by
    rintro s _ len rfl
    rfl
  at_afterRead := by
    rintro s _ len rfl
    rfl
  at_seek s off hrc := by
    have hlt : off < 2 ^ 31 := by
      by_contra hge
      have hfails : (ofBytesBelow F).seekRc s off = -22 := if_neg hge
      rw [hfails] at hrc
      exact absurd hrc (by decide)
    exact if_pos hlt

theorem servesPastEnd_ofBytes {F : List UInt8} (h : F.length < 2 ^ 31) :
    (ofBytes F).ServesPastEnd F Eq where
  length_lt := h
  seek_ok _ _ _ := ⟨rfl, rfl⟩
  read_eq := by
    rintro s _ len rfl
    rfl
  at_afterRead := by
    rintro s _ len rfl
    rfl
  seek_past _ _ _ := ⟨rfl, rfl⟩

section

variable {T : RuuviTlvTypes} {H : FsFile σ} {F rest : List UInt8} {At : σ → ℕ → Prop} {s : σ}
  {tlvsEndOff lo n : ℕ} {st : ScanState} {t : Tlv} {g : Found}

/-! ## Before the loop -/

/-- Without a whole image header nothing else is read. -/
theorem find_of_short (prior : FwImageHwRev) (s : σ) (h : H.Serves F At)
    (hshort : F.length < ImageHeader.size) :
    ((fwImgHwRevFindInFile T prior).run H s).1 = some (false, prior.reset) := by
  obtain ⟨hrc, hat⟩ := h.seek_ok s (Nat.zero_le F.length)
  have hlen : ((slice F 0 ImageHeader.size).length : ℤ) ≠ ImageHeader.size := by
    rw [length_slice]
    omega
  rw [fwImgHwRevFindInFile]
  simp [hrc, h.read_eq ImageHeader.size hat, hlen]

/-- The scan behind the image header. -/
theorem find_of_header (prior : FwImageHwRev) (s : σ) (h : H.Serves F At)
    (hlen : ImageHeader.size ≤ F.length) :
    ∃ s', (fwImgHwRevFindInFile T prior).run H s =
        (findInFileBehindHeader T (.ofBytes (slice F 0 ImageHeader.size)) prior.reset).run H s' ∧
      ∃ es, (∀ e ∈ es, FullRead e) ∧ (fwImgHwRevFindInFile T prior).trace H s = es ++
        (findInFileBehindHeader T (.ofBytes (slice F 0 ImageHeader.size)) prior.reset).trace H
          s' := by
  obtain ⟨hrc, hat⟩ := h.seek_ok s (Nat.zero_le F.length)
  have hread := h.read_eq ImageHeader.size hat
  have hfull : (slice F 0 ImageHeader.size).length = ImageHeader.size :=
    length_slice_of_le (by omega)
  have hhdr : overlay (List.replicate ImageHeader.size 0) (slice F 0 ImageHeader.size) =
      slice F 0 ImageHeader.size :=
    overlay_of_length_eq (hfull.trans List.length_replicate.symm)
  refine ⟨H.afterRead (H.seek s 0) ImageHeader.size, ?_,
    [⟨FsCall.fsSeek 0, (0 : ℤ)⟩,
      ⟨FsCall.fsRead ImageHeader.size, H.read (H.seek s 0) ImageHeader.size⟩], ?_, ?_⟩
  · rw [fwImgHwRevFindInFile]
    simp [hrc, hread, hfull, hhdr]
  · simp [FullRead, hread, hfull]
  · rw [fwImgHwRevFindInFile]
    simp [hrc, hread, hfull, hhdr]

/-- Where the magic number is found, there is something of the file. -/
theorem lt_of_magic_eq {off : ℕ} (h : (infoAt F off).itMagic = imageTlvProtInfoMagic) :
    off < F.length := by
  by_contra hle
  rw [infoAt, slice_of_length_le _ (Nat.not_lt.mp hle)] at h
  exact absurd h (by decide)

/-- Without the magic number of the protected TLVs the scan fails. -/
theorem behindHeader_of_magic_ne {hdr : ImageHeader} (r : FwImageHwRev) (h : H.Serves F At)
    (hat : H.seekRc s hdr.tlvAreaOff = 0 → At (H.seek s hdr.tlvAreaOff) hdr.tlvAreaOff)
    (hmagic : (infoAt F hdr.tlvAreaOff).itMagic ≠ imageTlvProtInfoMagic) :
    ((findInFileBehindHeader T hdr r).run H s).1 = some (false, r) := by
  rw [infoAt] at hmagic
  rw [findInFileBehindHeader]
  by_cases hrc : H.seekRc s hdr.tlvAreaOff = 0
  · simp [findTlvsInFile, hrc, h.read_eq ImageTlvInfo.size (hat hrc), hmagic]
  · simp [findTlvsInFile, hrc]

/-- With the magic number the scan is its loop over the region that the info header announces. -/
theorem behindHeader_of_magic_eq {hdr : ImageHeader} (r : FwImageHwRev) (s : σ) (h : H.Serves F At)
    (hmagic : (infoAt F hdr.tlvAreaOff).itMagic = imageTlvProtInfoMagic) :
    let start := hdr.tlvAreaOff + ImageTlvInfo.size
    let loop := Prog.loop (fileScanBody T (start + (infoAt F hdr.tlvAreaOff).itTlvTot.toNat))
      tlvLoopRounds ⟨start, .zero, r⟩
    ∃ s', (findInFileBehindHeader T hdr r).run H s = loop.run H s' ∧
      ∃ es, ((∀ e ∈ es, FullRead e) ↔
          (slice F hdr.tlvAreaOff ImageTlvInfo.size).length = ImageTlvInfo.size) ∧
        (findInFileBehindHeader T hdr r).trace H s = es ++ loop.trace H s' := by
  intro start loop
  have hoff := lt_of_magic_eq hmagic
  have hlt := h.length_lt
  have htot := (infoAt F hdr.tlvAreaOff).itTlvTot.toNat_lt
  have hsize : ImageTlvInfo.size = 4 := rfl
  have hstart : sizeT (hdr.tlvAreaOff + ImageTlvInfo.size) = start := sizeT_of_lt (by omega)
  have hend : sizeT (start + (infoAt F hdr.tlvAreaOff).itTlvTot.toNat) =
      start + (infoAt F hdr.tlvAreaOff).itTlvTot.toNat := sizeT_of_lt (by omega)
  obtain ⟨hrc, hat⟩ := h.seek_ok s hoff.le
  have hread := h.read_eq ImageTlvInfo.size hat
  rw [infoAt] at hmagic hend
  refine ⟨H.afterRead (H.seek s hdr.tlvAreaOff) ImageTlvInfo.size, ?_,
    [⟨FsCall.fsSeek hdr.tlvAreaOff, (0 : ℤ)⟩,
      ⟨FsCall.fsRead ImageTlvInfo.size, H.read (H.seek s hdr.tlvAreaOff) ImageTlvInfo.size⟩],
    ?_, ?_⟩
  · rw [findInFileBehindHeader]
    simp [findTlvsInFile, hrc, hread, hmagic, hstart, hend]
    rfl
  · simp [FullRead, hread]
  · rw [findInFileBehindHeader]
    simp [findTlvsInFile, hrc, hread, hmagic, hstart, hend]
    rfl

/-! ## One round -/

/-- The bytes of the value that a round at `off` can read for a TLV header `tlv`. -/
def valueBytes (F : List UInt8) (off : ℕ) (tlv : ImageTlv) : List UInt8 :=
  slice F (off + (slice F off ImageTlv.size).length) tlv.itLen.toNat

/-- A round whose seek succeeds. -/
theorem round_of_seek (h : H.Serves F At)
    (hseek : H.seekRc s st.dataOff = 0 ∧ At (H.seek s st.dataOff) st.dataOff) {tlv : ImageTlv}
    (htest : sizeT (st.dataOff + ImageTlv.size) ≤ tlvsEndOff)
    (htlv : st.tlv.load (slice F st.dataOff ImageTlv.size) = tlv) :
    ((fileScanBody T tlvsEndOff st).run H s).1 =
        roundResult T st.dataOff tlv (valueBytes F st.dataOff tlv) st.hwRev ∧
      ((∀ e ∈ (fileScanBody T tlvsEndOff st).trace H s, FullRead e) ↔
        (slice F st.dataOff ImageTlv.size).length = ImageTlv.size ∧
          (Wants T st.hwRev tlv → (valueBytes F st.dataOff tlv).length = tlv.itLen.toNat)) := by
  have hhdr := h.read_eq ImageTlv.size hseek.2
  have hvalue := h.read_eq tlv.itLen.toNat (h.at_afterRead ImageTlv.size hseek.2)
  rw [← valueBytes] at hvalue
  have hrc : 0 ≤ (H.read (H.seek s st.dataOff) ImageTlv.size).rc := by
    rw [hhdr]
    exact Int.natCast_nonneg _
  have hrc' : 0 ≤ (H.read (H.behindHeader s st) tlv.itLen.toNat).rc := by
    rw [behindHeader, hvalue]
    exact Int.natCast_nonneg _
  obtain ⟨hrun, htrace⟩ :=
    run_fileScanBody (T := T) htest hseek.1 hrc (by rw [hhdr, htlv]) (fun _ => hrc')
  rw [behindHeader, hvalue] at hrun
  refine ⟨by rw [hrun], ?_⟩
  rw [htrace, valueTrace, behindHeader, hvalue, hhdr]
  simp only [List.forall_mem_cons, FullRead, true_and]
  by_cases hw : Wants T st.hwRev tlv <;> simp [hw]

/-- A round whose seek fails ends the loop. -/
theorem round_of_seek_ne (hrc : H.seekRc s st.dataOff ≠ 0)
    (htest : sizeT (st.dataOff + ImageTlv.size) ≤ tlvsEndOff) :
    ((fileScanBody T tlvsEndOff st).run H s).1 = .inr (false, st.hwRev) := by
  simp [fileScanBody, htest, hrc]

/-- A round over a TLV that the file holds in full. -/
theorem round_of_tlv (h : H.Serves F At) (hdrop : F.drop st.dataOff = t.encode ++ rest)
    (htest : st.dataOff + ImageTlv.size ≤ tlvsEndOff) :
    Shows st.dataOff (.ofTlv t) (tlvStep T st.hwRev.found t)
        ((fileScanBody T tlvsEndOff st).run H s).1 ∧
      ∀ e ∈ (fileScanBody T tlvsEndOff st).trace H s, FullRead e := by
  have hlen : st.dataOff + t.encode.length ≤ F.length := Tlv.add_length_encode_le hdrop
  have hlt := h.length_lt
  have hsize : ImageTlv.size = 4 := rfl
  rw [Tlv.length_encode] at hlen
  rw [Tlv.encode, List.append_assoc] at hdrop
  have hhdr : ImageTlv.size = (Tlv.header t.type t.value.length).length :=
    (Tlv.length_header _ _).symm
  have hl := ImageTlv.toNat_itLen_ofTlv t
  have htlv : st.tlv.load (slice F st.dataOff ImageTlv.size) = .ofTlv t := by
    rw [slice_of_drop_eq hdrop hhdr, ← hl]
    exact st.tlv.load_header _ _
  have hvalue : valueBytes F st.dataOff (.ofTlv t) = t.value := by
    rw [valueBytes, slice_of_drop_eq hdrop hhdr, hl]
    exact slice_of_drop_eq (drop_add_of_drop_eq hdrop rfl) rfl
  have hoff : sizeT (st.dataOff + ImageTlv.size) = st.dataOff + ImageTlv.size :=
    sizeT_of_lt (by omega)
  obtain ⟨hrun, htrace⟩ := round_of_seek (T := T) h (h.seek_ok s (by omega : st.dataOff ≤ F.length))
    (hoff.trans_le htest) htlv
  rw [hrun, htrace, hvalue]
  refine ⟨roundResult_shows _ _ _, ?_, fun _ => hl.symm⟩
  rw [slice_of_drop_eq hdrop hhdr, ← hhdr]

/-! ## Through the TLVs -/

/-- What the loop has got to at `st`, with the TLVs `ts` still to come before offset `hi`. -/
private structure Walking (T : RuuviTlvTypes) (F rest : List UInt8) (hi : ℕ) (g : Found)
    (st : ScanState) (ts : List Tlv) : Prop where
  hi_eq : st.dataOff + (Tlv.encodeAll ts).length = hi
  drop_eq : F.drop st.dataOff = Tlv.encodeAll ts ++ rest
  scan_eq : scanTlvs T st.hwRev.found ts = .undecided g

/-- One round of the walk. -/
private theorem Walking.round {hi : ℕ} {ts : List Tlv} (h : H.Serves F At) (hhi : hi ≤ tlvsEndOff)
    (hw : Walking T F rest hi g st (t :: ts)) :
    ∃ st' s', (fileScanBody T tlvsEndOff st).run H s = (.inl st', s') ∧
      Walking T F rest hi g st' ts ∧
      ∀ e ∈ (fileScanBody T tlvsEndOff st).trace H s, FullRead e := by
  have hlen := hw.hi_eq
  have hdrop := hw.drop_eq
  rw [Tlv.encodeAll_cons, List.append_assoc] at hdrop
  rw [Tlv.encodeAll_cons, List.length_append, Tlv.length_encode] at hlen
  have hsize : ImageTlv.size = 4 := rfl
  obtain ⟨hshows, hfull⟩ := round_of_tlv (T := T) (s := s) h hdrop (by omega : _ ≤ tlvsEndOff)
  have hnext := ImageTlv.sizeT_behind_ofTlv (Tlv.add_length_encode_le hdrop) h.length_lt
  obtain ⟨f, hf, hscan⟩ := scanTlvs_cons_eq_undecided hw.scan_eq
  rw [hf] at hshows
  obtain ⟨r, hrun, hr⟩ := hshows
  rw [hnext] at hrun
  refine ⟨_, _, Prod.ext hrun rfl, ⟨?_, ?_, by rw [hr]; exact hscan⟩, hfull⟩
  · rw [← hlen, ← Tlv.length_encode, Nat.add_assoc]
  · exact drop_add_of_drop_eq hdrop rfl

/-- The loop passes the TLVs that the file holds from `data_off` on, as long as they do not end the
search. -/
theorem walk {ts : List Tlv} (h : H.Serves F At)
    (hdrop : F.drop st.dataOff = Tlv.encodeAll ts ++ rest)
    (hend : st.dataOff + (Tlv.encodeAll ts).length ≤ tlvsEndOff)
    (hscan : scanTlvs T st.hwRev.found ts = .undecided g) (s : σ) (n : ℕ) :
    ∃ st' s' es, st'.dataOff = st.dataOff + (Tlv.encodeAll ts).length ∧ st'.hwRev.found = g ∧
      (∀ e ∈ es, FullRead e) ∧
      (Prog.loop (fileScanBody T tlvsEndOff) (ts.length + n) st).run H s =
        (Prog.loop (fileScanBody T tlvsEndOff) n st').run H s' ∧
      (Prog.loop (fileScanBody T tlvsEndOff) (ts.length + n) st).trace H s =
        es ++ (Prog.loop (fileScanBody T tlvsEndOff) n st').trace H s' := by
  have hstart : Walking T F rest (st.dataOff + (Tlv.encodeAll ts).length) g st ts :=
    ⟨rfl, hdrop, hscan⟩
  obtain ⟨st', s', es, hw, hes, hrun, htrace⟩ :=
    Prog.run_loop_consume (n := n) (fun b _ xs => Walking T F rest _ g b xs) FullRead
      (fun b s x xs hb => hb.round h hend) hstart
  have hoff := hw.hi_eq
  rw [Tlv.encodeAll_nil, List.length_nil, Nat.add_zero] at hoff
  have hg := hw.scan_eq
  rw [scanTlvs, Verdict.undecided.injEq] at hg
  exact ⟨st', s', es, hoff, hg, hes, hrun, htrace⟩

end

end FsFile

end FwLoader.Image
