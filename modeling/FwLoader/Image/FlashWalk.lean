import FwLoader.Image.Round

/-!
# Walking through a flash area

An area that holds the bytes `B` answers every read inside `B` with the bytes there. As long as the
bytes at `data_off` are TLVs stored in full, the loop follows the search `scanTlvs` through them and
reads nothing behind them.
-/

namespace FwLoader.Image

open Foundations

namespace FlashArea

/-- The area holds the bytes `B`. Offsets are of type `off_t`, which has 31 bits and a sign. -/
structure Holds (A : FlashArea) (B : List UInt8) : Prop where
  length_lt : B.length < 2 ^ 31
  read_eq : ∀ {off len : ℕ}, off + len ≤ B.length → A.read off len = ⟨0, slice B off len⟩
  read_oob : ∀ {off len : ℕ}, B.length < off + len → (A.read off len).rc ≠ 0

/-- The area opens, and MCUboot accepts its image header. -/
structure Accepts (A : FlashArea) (faId : ℤ) (hdr : ImageHeader) : Prop where
  openRc_eq : A.openRc faId = 0
  loadHeader_eq : A.loadHeader = ⟨0, hdr⟩

/-- A call that reads nothing outside the region from `lo` up to but not including `hi`. -/
def Within (lo hi : ℕ) : FlashCall → Prop
  | .flashAreaRead off len => lo ≤ off ∧ off + len ≤ hi
  | _ => True

theorem Within.mono {lo hi lo' hi' : ℕ} {c : FlashCall} (h : Within lo hi c) (hlo : lo' ≤ lo)
    (hhi : hi ≤ hi') : Within lo' hi' c := by
  cases c with
  | flashAreaRead off len => exact ⟨hlo.trans h.1, h.2.trans hhi⟩
  | _ => trivial

/-! ## A flash area of given contents -/

/-- `flash_area_read` of an area that holds `B`; a read that leaves
the area fails with `-EINVAL`. -/
def readBytes (B : List UInt8) (off len : ℕ) : ReadAnswer :=
  if off + len ≤ B.length then ⟨0, slice B off len⟩ else ⟨-22, []⟩

/-- The area that holds `B`, an image that MCUboot accepts. -/
def ofBytes (B : List UInt8) : FlashArea
  | .flashAreaOpen _ => (0 : ℤ)
  | .flashAreaClose => ()
  | .bootImageLoadHeader =>
    (⟨0, ImageHeader.ofBytes (slice B 0 ImageHeader.size)⟩ : LoadHeaderAnswer)
  | .flashAreaRead off len => readBytes B off len

theorem holds_ofBytes {B : List UInt8} (h : B.length < 2 ^ 31) : (ofBytes B).Holds B where
  length_lt := h
  read_eq hin := if_pos hin
  read_oob {off len} hout := by
    show (readBytes B off len).rc ≠ 0
    rw [readBytes, if_neg (Nat.not_le.mpr hout)]
    decide

theorem accepts_ofBytes (B : List UInt8) (faId : ℤ) :
    (ofBytes B).Accepts faId (ImageHeader.ofBytes (slice B 0 ImageHeader.size)) :=
  ⟨rfl, rfl⟩

section

variable {T : RuuviTlvTypes} {A : FlashArea} {B rest : List UInt8} {hdr : ImageHeader} {faId : ℤ}
  {tlvsEndOff lo n : ℕ} {st : ScanState} {t : Tlv} {g : Found}

/-! ## Before the loop -/

/-- The scan reads the info header. -/
theorem mem_calls_find {prior : FwImageHwRev} (h : A.Accepts faId hdr) :
    .flashAreaRead hdr.tlvAreaOff ImageTlvInfo.size ∈
      (fwImgHwRevFindInFlashArea T faId prior).calls A := by
  rw [fwImgHwRevFindInFlashArea, fwImgHwRevFindInFlashAreaInternal]
  simp [findTlvsInFlashArea, h.openRc_eq, h.loadHeader_eq]

/-- Without the magic number of the protected TLVs only their info header is read. -/
theorem find_of_magic_ne (prior : FwImageHwRev) (h : A.Accepts faId hdr)
    (hread : A.read hdr.tlvAreaOff ImageTlvInfo.size =
      ⟨0, slice B hdr.tlvAreaOff ImageTlvInfo.size⟩)
    (hmagic : (infoAt B hdr.tlvAreaOff).itMagic ≠ imageTlvProtInfoMagic) :
    (fwImgHwRevFindInFlashArea T faId prior).eval A = some (false, prior.reset) ∧
      (fwImgHwRevFindInFlashArea T faId prior).calls A =
        [.flashAreaOpen faId, .bootImageLoadHeader,
          .flashAreaRead hdr.tlvAreaOff ImageTlvInfo.size, .flashAreaClose] := by
  rw [infoAt] at hmagic
  rw [fwImgHwRevFindInFlashArea, fwImgHwRevFindInFlashAreaInternal]
  simp [findTlvsInFlashArea, h.openRc_eq, h.loadHeader_eq, hread, hmagic]

/-- The scan is its loop over the region that the info header announces. -/
theorem find_of_magic_eq (prior : FwImageHwRev) (h : A.Accepts faId hdr)
    (hread : A.read hdr.tlvAreaOff ImageTlvInfo.size =
      ⟨0, slice B hdr.tlvAreaOff ImageTlvInfo.size⟩)
    (hmagic : (infoAt B hdr.tlvAreaOff).itMagic = imageTlvProtInfoMagic)
    (hoff : hdr.tlvAreaOff < 2 ^ 31) :
    let start := hdr.tlvAreaOff + ImageTlvInfo.size
    let loop := Prog.loop (flashScanBody T (start + (infoAt B hdr.tlvAreaOff).itTlvTot.toNat))
      tlvLoopRounds ⟨start, .zero, prior.reset⟩
    (fwImgHwRevFindInFlashArea T faId prior).eval A = loop.eval A ∧
      (fwImgHwRevFindInFlashArea T faId prior).calls A =
        .flashAreaOpen faId :: .bootImageLoadHeader ::
          .flashAreaRead hdr.tlvAreaOff ImageTlvInfo.size :: (loop.calls A ++ [.flashAreaClose]) := by
  intro start loop
  have htot := (infoAt B hdr.tlvAreaOff).itTlvTot.toNat_lt
  have hsize : ImageTlvInfo.size = 4 := rfl
  have hstart : sizeT (hdr.tlvAreaOff + ImageTlvInfo.size) = start := sizeT_of_lt (by omega)
  have hend : sizeT (start + (infoAt B hdr.tlvAreaOff).itTlvTot.toNat) =
      start + (infoAt B hdr.tlvAreaOff).itTlvTot.toNat := sizeT_of_lt (by omega)
  rw [infoAt] at hmagic hend
  rw [fwImgHwRevFindInFlashArea, fwImgHwRevFindInFlashAreaInternal]
  simp [findTlvsInFlashArea, h.openRc_eq, h.loadHeader_eq, hread, hmagic, hstart, hend]
  exact ⟨rfl, rfl⟩

/-! ## Through the TLVs -/

/-- The reads of a TLV that the area holds at `off`. -/
private theorem reads_of_tlv (h : A.Holds B) {off : ℕ} (hdrop : B.drop off = t.encode ++ rest) :
    A.read off ImageTlv.size = ⟨0, Tlv.header t.type (ImageTlv.ofTlv t).itLen.toNat⟩ ∧
      A.valueRead (.ofTlv t) off = ⟨0, t.value⟩ ∧ off + t.encode.length ≤ B.length := by
  have hlen : off + t.encode.length ≤ B.length := Tlv.add_length_encode_le hdrop
  have hlt := h.length_lt
  have hsize : ImageTlv.size = 4 := rfl
  rw [Tlv.length_encode] at hlen
  rw [Tlv.encode, List.append_assoc] at hdrop
  have hhdr : ImageTlv.size = (Tlv.header t.type t.value.length).length :=
    (Tlv.length_header _ _).symm
  have hvalue := drop_add_of_drop_eq hdrop hhdr
  have hoff : sizeT (off + ImageTlv.size) = off + ImageTlv.size := sizeT_of_lt (by omega)
  rw [valueRead, hoff, ImageTlv.toNat_itLen_ofTlv, h.read_eq (by omega), h.read_eq (by omega),
    slice_of_drop_eq hdrop hhdr, slice_of_drop_eq hvalue rfl]
  exact ⟨rfl, rfl, by rw [Tlv.length_encode]; exact hlen⟩

/-- A round over a TLV that the area holds in full. -/
theorem round_of_tlv (h : A.Holds B) (hdrop : B.drop st.dataOff = t.encode ++ rest)
    (htest : st.dataOff + ImageTlv.size ≤ tlvsEndOff) :
    Shows st.dataOff (.ofTlv t) (tlvStep T st.hwRev.found t)
        ((flashScanBody T tlvsEndOff st).eval A) ∧
      ∀ c ∈ (flashScanBody T tlvsEndOff st).calls A,
        Within st.dataOff (st.dataOff + t.encode.length) c := by
  obtain ⟨hhdr, hvalue, hlen⟩ := reads_of_tlv h hdrop
  have hlt := h.length_lt
  rw [Tlv.length_encode] at hlen ⊢
  have hsize : ImageTlv.size = 4 := rfl
  have hoff : sizeT (st.dataOff + ImageTlv.size) = st.dataOff + ImageTlv.size :=
    sizeT_of_lt (by omega)
  have htlv : st.tlv.load (A.read st.dataOff ImageTlv.size).bytes = .ofTlv t := by
    rw [hhdr]
    exact st.tlv.load_header _ _
  have hrc : (A.read st.dataOff ImageTlv.size).rc = 0 := by rw [hhdr]
  have hl := ImageTlv.toNat_itLen_ofTlv t
  rw [eval_flashScanBody (hoff.trans_le htest) hrc htlv (fun _ => by rw [hvalue]),
    calls_flashScanBody (hoff.trans_le htest) hrc htlv, hvalue, valueCalls, hoff]
  refine ⟨roundResult_shows _ _ _, ?_⟩
  intro c hc
  rcases List.mem_cons.mp hc with rfl | hc
  · exact ⟨le_refl _, by omega⟩
  · split at hc
    · rw [List.mem_singleton.mp hc]
      exact ⟨by omega, by omega⟩
    · exact absurd hc (by simp)

/-- What the loop has got to at `st`, with the TLVs `ts` still to come before offset `hi`. -/
private structure Walking (T : RuuviTlvTypes) (B rest : List UInt8) (lo hi : ℕ) (g : Found)
    (st : ScanState) (ts : List Tlv) : Prop where
  lo_le : lo ≤ st.dataOff
  hi_eq : st.dataOff + (Tlv.encodeAll ts).length = hi
  drop_eq : B.drop st.dataOff = Tlv.encodeAll ts ++ rest
  scan_eq : scanTlvs T st.hwRev.found ts = .undecided g

/-- One round of the walk. -/
private theorem Walking.round {hi : ℕ} {ts : List Tlv} (h : A.Holds B) (hhi : hi ≤ tlvsEndOff)
    (hw : Walking T B rest lo hi g st (t :: ts)) :
    ∃ st', (flashScanBody T tlvsEndOff st).eval A = .inl st' ∧ Walking T B rest lo hi g st' ts ∧
      ∀ c ∈ (flashScanBody T tlvsEndOff st).calls A, Within lo hi c := by
  have hlo := hw.lo_le
  have hlen := hw.hi_eq
  have hdrop := hw.drop_eq
  rw [Tlv.encodeAll_cons, List.append_assoc] at hdrop
  rw [Tlv.encodeAll_cons, List.length_append, Tlv.length_encode] at hlen
  have hsize : ImageTlv.size = 4 := rfl
  obtain ⟨hshows, hcalls⟩ := round_of_tlv (T := T) h hdrop (by omega : _ ≤ tlvsEndOff)
  have hnext := ImageTlv.sizeT_behind_ofTlv (Tlv.add_length_encode_le hdrop) h.length_lt
  obtain ⟨f, hf, hscan⟩ : ∃ f, tlvStep T st.hwRev.found t = .undecided f ∧
      scanTlvs T f ts = .undecided g := scanTlvs_cons_eq_undecided hw.scan_eq
  rw [hf] at hshows
  obtain ⟨r, heval, hr⟩ := hshows
  rw [hnext] at heval
  refine ⟨_, heval, ⟨?_, ?_, ?_, by rw [hr]; exact hscan⟩, ?_⟩
  · exact hlo.trans (Nat.le_add_right _ _)
  · rw [← hlen, ← Tlv.length_encode, Nat.add_assoc]
  · exact drop_add_of_drop_eq hdrop rfl
  · intro c hc
    exact (hcalls c hc).mono hlo (by rw [Tlv.length_encode]; omega)

/-- The loop passes the TLVs that the area holds from `data_off` on, as long as they do not end the
search. -/
theorem walk {ts : List Tlv} (h : A.Holds B)
    (hdrop : B.drop st.dataOff = Tlv.encodeAll ts ++ rest)
    (hend : st.dataOff + (Tlv.encodeAll ts).length ≤ tlvsEndOff)
    (hscan : scanTlvs T st.hwRev.found ts = .undecided g) (n : ℕ) :
    ∃ st' cs, st'.dataOff = st.dataOff + (Tlv.encodeAll ts).length ∧ st'.hwRev.found = g ∧
      (∀ c ∈ cs, Within st.dataOff st'.dataOff c) ∧
      (Prog.loop (flashScanBody T tlvsEndOff) (ts.length + n) st).eval A =
        (Prog.loop (flashScanBody T tlvsEndOff) n st').eval A ∧
      (Prog.loop (flashScanBody T tlvsEndOff) (ts.length + n) st).calls A =
        cs ++ (Prog.loop (flashScanBody T tlvsEndOff) n st').calls A := by
  have hstart : Walking T B rest st.dataOff (st.dataOff + (Tlv.encodeAll ts).length) g st ts :=
    ⟨le_refl _, rfl, hdrop, hscan⟩
  obtain ⟨st', cs, hw, hcs, heval, hcalls⟩ :=
    Prog.eval_loop_consume (n := n) _ _ (fun b x xs hb => hb.round h hend) hstart
  have hoff := hw.hi_eq
  rw [Tlv.encodeAll_nil, List.length_nil, Nat.add_zero] at hoff
  have hg := hw.scan_eq
  rw [scanTlvs, Verdict.undecided.injEq] at hg
  exact ⟨st', cs, hoff, hg, hoff ▸ hcs, heval, hcalls⟩

/-- The loop ends where the search does, and reads nothing behind the TLVs that it went through. -/
theorem loop_of_decided {ts : List Tlv} (h : A.Holds B)
    (hdrop : B.drop st.dataOff = Tlv.encodeAll ts ++ rest)
    (hend : st.dataOff + (Tlv.encodeAll ts).length ≤ tlvsEndOff) (hn : ts.length ≤ n)
    (hscan : ∀ g, scanTlvs T st.hwRev.found ts ≠ .undecided g) :
    ∃ out, (Prog.loop (flashScanBody T tlvsEndOff) n st).eval A = some out ∧
      Decides (scanTlvs T st.hwRev.found ts) out ∧
      ∀ c ∈ (Prog.loop (flashScanBody T tlvsEndOff) n st).calls A,
        Within st.dataOff (st.dataOff + (Tlv.encodeAll ts).length) c := by
  obtain ⟨us, t, vs, g, rfl, hus, hstep⟩ := scanTlvs_split _ _ hscan
  rw [Tlv.encodeAll_append, Tlv.encodeAll_cons] at hdrop hend ⊢
  simp only [List.append_assoc, List.length_append, Tlv.length_encode] at hdrop hend ⊢
  rw [List.length_append, List.length_cons] at hn
  obtain ⟨n, rfl⟩ : ∃ m, n = us.length + (m + 1) := ⟨n - us.length - 1, by omega⟩
  have hsize : ImageTlv.size = 4 := rfl
  obtain ⟨st', cs, hoff, hfound, hcs, heval, hcalls⟩ :=
    walk h hdrop (by omega : _ ≤ tlvsEndOff) hus (n + 1)
  have hdrop' : B.drop st'.dataOff = t.encode ++ (Tlv.encodeAll vs ++ rest) := by
    rw [hoff]
    exact drop_add_of_drop_eq hdrop rfl
  obtain ⟨hshows, hround⟩ := round_of_tlv (T := T) h hdrop' (by omega : _ ≤ tlvsEndOff)
  rw [hfound, hstep] at hshows
  obtain ⟨out, hres, hout⟩ := hshows.decides hscan
  refine ⟨out, by rw [heval, Prog.eval_loop_inr hres], hout, ?_⟩
  rw [hcalls, Prog.calls_loop_inr hres]
  rw [Tlv.length_encode] at hround
  intro c hc
  rcases List.mem_append.mp hc with hc | hc
  · exact (hcs c hc).mono (le_refl _) (by omega)
  · exact (hround c hc).mono (by omega) (by omega)

end

end FlashArea

end FwLoader.Image
