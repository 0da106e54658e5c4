import FwLoader.Image.FileWalk

/-!
# Truncated update files

Of the reads of the file scan only that of the image header checks how much was read. A file that
ends within a TLV is nevertheless refused, except in one case: the file ends within the value that
would complete the revision, and the bytes that are left of it already do so.
-/

namespace FwLoader.Image

open Foundations

/-- Whatever the scan of the file accepts, from state `s`, it has read in full, and the revision
does not depend on what the structure held before. -/
def ReadInFull {σ : Type} (T : RuuviTlvTypes) (H : FsFile σ) (s : σ) : Prop :=
  ∀ prior r, ((fwImgHwRevFindInFile T prior).run H s).1 = some (true, r) →
    (∀ e ∈ (fwImgHwRevFindInFile T prior).trace H s, FsFile.FullRead e) ∧
      ∀ prior', ∃ r', ((fwImgHwRevFindInFile T prior').run H s).1 = some (true, r') ∧
        r'.hwRevNum = r.hwRevNum ∧ r'.hwRevName.cStr = r.hwRevName.cStr

/-- The loop from `start` to `stop` passes the TLVs `ts`, finds `g` in them and then reads a header;
`rest` is what the file holds from there on. -/
structure Passes (T : RuuviTlvTypes) (F : List UInt8) (start stop : ℕ) (ts : List Tlv) (g : Found)
    (rest : List UInt8) : Prop where
  drop_eq : F.drop start = Tlv.encodeAll ts ++ rest
  test : start + (Tlv.encodeAll ts).length + ImageTlv.size ≤ stop
  scan_eq : scanTlvs T .none ts = .undecided g

/-- The bytes that the loop reads end within a value that is taken, and what is left of the value
completes the revision. -/
def CutBetween (T : RuuviTlvTypes) (F : List UInt8) (start stop : ℕ) : Prop :=
  ∃ (ts : List Tlv) (g : Found) (type len : UInt16) (part : List UInt8),
    Passes T F start stop ts g (Tlv.header type len.toNat ++ part) ∧ part.length < len.toNat ∧
      Takes T g type len.toNat ∧ Completes T g type part

/-- The file ends within the value that completes its revision. -/
def CutInValue (T : RuuviTlvTypes) (F : List UInt8) : Prop :=
  let hdr := ImageHeader.ofBytes (slice F 0 ImageHeader.size)
  let info := infoAt F hdr.tlvAreaOff
  let start := hdr.tlvAreaOff + ImageTlvInfo.size
  ImageHeader.size ≤ F.length ∧ info.itMagic = imageTlvProtInfoMagic ∧
    CutBetween T F start (start + info.itTlvTot.toNat)

section

variable {T : RuuviTlvTypes} {σ : Type} {H : FsFile σ} {F rest : List UInt8} {At : σ → ℕ → Prop}
  {st : ScanState} {start stop : ℕ} {ts : List Tlv} {g f : Found} {t : Tlv} {r : FwImageHwRev}

/-! ## Past the end of the file -/

/-- A loop that has come to the end of the file does not accept any more: neither the header that
was left from the round before nor the zeros of a buffer complete the revision. -/
private theorem not_accepts_past_end (h : H.ServesSought F At) (hstop : stop < 2 ^ 31 + 2 ^ 17)
    (n : ℕ) (s : σ) (hpast : F.length < st.dataOff + ImageTlv.size)
    (hoff : st.dataOff < 2 ^ 31 + 2 ^ 18) (hc : ¬ st.hwRev.Complete) :
    ((Prog.loop (fileScanBody T stop) n st).run H s).1 ≠ some (true, r) := by
  have hsize : ImageTlv.size = 4 := rfl
  induction n generalizing st s with
  | zero => exact fun hacc => nomatch hacc
  | succ n ih =>
    by_cases htest : sizeT (st.dataOff + ImageTlv.size) ≤ stop
    swap
    · rw [Prog.run_loop_inr (FsFile.run_fileScanBody_of_lt (Nat.not_le.mp htest)).1]
      simp
    obtain ⟨tlv, htlv⟩ : ∃ tlv, st.tlv.load (slice F st.dataOff ImageTlv.size) = tlv := ⟨_, rfl⟩
    by_cases hrc : H.seekRc s st.dataOff = 0
    swap
    · rw [Prog.run_loop_inr (Prod.ext (FsFile.round_of_seek_ne hrc htest) rfl)]
      simp
    obtain ⟨hrun, -⟩ :=
      FsFile.round_of_seek (T := T) h.toServes ⟨hrc, h.at_seek s hrc⟩ htest htlv
    have hnil : FsFile.valueBytes F st.dataOff tlv = [] := by
      rw [FsFile.valueBytes, length_slice]
      exact slice_of_length_le _ (by omega)
    rw [hnil] at hrun
    have hlen := tlv.itLen.toNat_lt
    rw [sizeT_of_lt (by omega)] at htest
    -- no value is left, so the round refuses the file or goes on just as incomplete
    rcases roundResult_nil (T := T) st.dataOff tlv hc with ⟨r', hres⟩ | ⟨r', hres, hc'⟩
    · rw [hres] at hrun
      rw [Prog.run_loop_inr (Prod.ext hrun rfl)]
      simp
    · rw [hres, sizeT_of_lt (by omega)] at hrun
      rw [Prog.run_loop_inl (Prod.ext hrun rfl)]
      refine ih _ ?_ ?_ hc'
      · show F.length < st.dataOff + (ImageTlv.size + tlv.itLen.toNat) + ImageTlv.size
        omega
      · show st.dataOff + (ImageTlv.size + tlv.itLen.toNat) < _
        omega

/-! ## Within a value -/

/-- A round over a TLV of whose value the file holds only `part`. -/
private theorem round_of_cut (h : H.Serves F At) (s : σ) {type len : UInt16} {part : List UInt8}
    (hdrop : F.drop st.dataOff = Tlv.header type len.toNat ++ part)
    (hpart : part.length < len.toNat) (htest : st.dataOff + ImageTlv.size ≤ stop) :
    ((fileScanBody T stop st).run H s).1 = roundResult T st.dataOff ⟨type, len⟩ part st.hwRev ∧
      (Wants T st.hwRev ⟨type, len⟩ →
        ¬ ∀ e ∈ (fileScanBody T stop st).trace H s, FsFile.FullRead e) := by
  have hsize : ImageTlv.size = 4 := rfl
  have hlen := add_length_le_of_drop_eq hdrop (by rw [Tlv.length_header]; omega)
  rw [Tlv.length_header] at hlen
  have hlt := h.length_lt
  have hhdr : ImageTlv.size = (Tlv.header type len.toNat).length := (Tlv.length_header _ _).symm
  have htlv : st.tlv.load (slice F st.dataOff ImageTlv.size) = ⟨type, len⟩ := by
    rw [slice_of_drop_eq hdrop hhdr]
    exact st.tlv.load_header _ _
  have hvalue : FsFile.valueBytes F st.dataOff ⟨type, len⟩ = part := by
    rw [FsFile.valueBytes, slice_of_drop_eq hdrop hhdr, slice, drop_add_of_drop_eq hdrop rfl]
    exact List.take_of_length_le hpart.le
  have htest' : sizeT (st.dataOff + ImageTlv.size) ≤ stop := by rwa [sizeT_of_lt (by omega)]
  obtain ⟨hrun, htrace⟩ := FsFile.round_of_seek (T := T) h
    (h.seek_ok s (by omega : st.dataOff ≤ F.length)) htest' htlv
  rw [hvalue] at hrun htrace
  refine ⟨hrun, fun hw hfull => ?_⟩
  exact hpart.ne ((htrace.mp hfull).2 hw)

/-- After a value that the file holds in part only, the loop does not accept any more. -/
private theorem not_accepts_of_cut (h : H.ServesSought F At) (hstop : stop < 2 ^ 31 + 2 ^ 17)
    (n : ℕ) (s : σ) {type len : UInt16} {part : List UInt8}
    (hdrop : F.drop st.dataOff = Tlv.header type len.toNat ++ part)
    (hpart : part.length < len.toNat) (htest : st.dataOff + ImageTlv.size ≤ stop)
    (hc : ¬ st.hwRev.Complete)
    (hno : ¬ (Takes T st.hwRev.found type len.toNat ∧ Completes T st.hwRev.found type part)) :
    ((Prog.loop (fileScanBody T stop) n st).run H s).1 ≠ some (true, r) := by
  cases n with
  | zero => exact fun hacc => nomatch hacc
  | succ n =>
    have hsize : ImageTlv.size = 4 := rfl
    have hlen := congrArg List.length hdrop
    rw [List.length_drop, List.length_append, Tlv.length_header] at hlen
    have hbound := len.toNat_lt
    obtain ⟨hrun, -⟩ := round_of_cut (T := T) h.toServes s hdrop hpart htest
    have hnext : sizeT (st.dataOff + (ImageTlv.size + len.toNat)) =
        st.dataOff + (ImageTlv.size + len.toNat) := sizeT_of_lt (by omega)
    have hgo : ∀ r', ((fileScanBody T stop st).run H s).1 =
        .inl ⟨sizeT (st.dataOff + (ImageTlv.size + len.toNat)), ⟨type, len⟩, r'⟩ →
        ¬ r'.Complete →
          ((Prog.loop (fileScanBody T stop) (n + 1) st).run H s).1 ≠ some (true, r) := by
      intro r' hres hc'
      rw [hnext] at hres
      rw [Prog.run_loop_inl (Prod.ext hres rfl)]
      refine not_accepts_past_end h hstop n _ ?_ ?_ hc'
      · show F.length < st.dataOff + (ImageTlv.size + len.toNat) + ImageTlv.size
        omega
      · show st.dataOff + (ImageTlv.size + len.toNat) < _
        omega
    -- the part is stored, or the header is refused, or the TLV is skipped
    by_cases hw : Wants T st.hwRev ⟨type, len⟩
    · have hnc : ¬ Completes T st.hwRev.found type part := fun hcomp => hno ⟨hw, hcomp⟩
      rw [roundResult_of_not_completes hw hpart.le hnc] at hrun
      exact hgo _ hrun (mt (complete_storeValue_iff hw hpart.le).mp hnc)
    by_cases hrev : IsRevisionType T type
    · rw [roundResult_of_refused hw hrev] at hrun
      rw [Prog.run_loop_inr (Prod.ext hrun rfl)]
      simp
    · rw [roundResult_of_other hrev (mt st.hwRev.complete_iff.mpr hc)] at hrun
      exact hgo _ hrun hc

/-! ## The loop -/

/-- What makes the loop accept: a TLV that the file holds in full completes the revision. -/
def Completed (T : RuuviTlvTypes) (F : List UInt8) (start stop : ℕ) (f : Found) : Prop :=
  ∃ ts g t rest, Passes T F start stop ts g (Tlv.encode t ++ rest) ∧ tlvStep T g t = .accepted f

/-- The loop has come from `start` to `st` through the TLVs `ts`. -/
structure Arrived (T : RuuviTlvTypes) (F : List UInt8) (start : ℕ) (st : ScanState)
    (ts : List Tlv) : Prop where
  drop_eq : F.drop start = Tlv.encodeAll ts ++ F.drop st.dataOff
  off_eq : st.dataOff = start + (Tlv.encodeAll ts).length
  scan_eq : scanTlvs T .none ts = .undecided st.hwRev.found

theorem Arrived.not_complete (ha : Arrived T F start st ts) : ¬ st.hwRev.Complete :=
  mt st.hwRev.complete_iff.mp (not_complete_of_scanTlvs (by decide) ha.scan_eq)

theorem Arrived.passes (ha : Arrived T F start st ts) (hrest : F.drop st.dataOff = rest)
    (htest : st.dataOff + ImageTlv.size ≤ stop) : Passes T F start stop ts st.hwRev.found rest where
  drop_eq := hrest ▸ ha.drop_eq
  test := ha.off_eq ▸ htest
  scan_eq := ha.scan_eq

/-- One TLV further. -/
theorem Arrived.snoc (ha : Arrived T F start st ts)
    (hrest : F.drop st.dataOff = t.encode ++ rest)
    (hstep : tlvStep T st.hwRev.found t = .undecided g)
    {st' : ScanState} (hoff : st'.dataOff = st.dataOff + t.encode.length)
    (hfound : st'.hwRev.found = g) : Arrived T F start st' (ts ++ [t]) where
  drop_eq := by
    rw [hoff, drop_add_of_drop_eq hrest rfl, ha.drop_eq, hrest]
    simp
  off_eq := by
    rw [hoff, ha.off_eq, Tlv.encodeAll_append, List.length_append, Nat.add_assoc]
    simp
  scan_eq := by
    rw [scanTlvs_append ha.scan_eq, scanTlvs_cons_undecided hstep, scanTlvs, hfound]

/-- If the loop accepts, a TLV that the file holds in full has completed the revision, or the file
ends in the value that has. The induction is on the rounds; `ts` are the TLVs passed so far. -/
theorem completed_of_accepts (h : H.ServesSought F At) (hstop : stop < 2 ^ 31 + 2 ^ 17)
    (n : ℕ) (s : σ) (ts : List Tlv) (ha : Arrived T F start st ts)
    (hlt : st.dataOff < 2 ^ 31 + 2 ^ 18)
    (hacc : ((Prog.loop (fileScanBody T stop) n st).run H s).1 = some (true, r)) :
    Completed T F start stop r.found ∨ CutBetween T F start stop := by
  induction n generalizing st s ts with
  | zero => exact nomatch hacc
  | succ n ih =>
    have hsize : ImageTlv.size = 4 := rfl
    rcases Nat.lt_or_ge stop (st.dataOff + ImageTlv.size) with htest | htest
    · rw [Prog.run_loop_inr (FsFile.run_fileScanBody_of_lt (by rwa [sizeT_of_lt (by omega)])).1]
        at hacc
      simp at hacc
    by_cases hcut : Tlv.Cut (F.drop st.dataOff)
    · -- from here on the loop can only accept with what is left of a value
      rcases hcut with hshort | ⟨type, len, part, hrest, hpart⟩
      · rw [List.length_drop] at hshort
        exact absurd hacc
          (not_accepts_past_end h hstop (n + 1) s (by omega) hlt ha.not_complete)
      · by_cases hno : Takes T st.hwRev.found type len.toNat ∧
            Completes T st.hwRev.found type part
        · exact Or.inr ⟨ts, _, type, len, part, ha.passes hrest htest, hpart, hno⟩
        · exact absurd hacc
            (not_accepts_of_cut h hstop (n + 1) s hrest hpart htest ha.not_complete hno)
    obtain ⟨t, rest, hrest⟩ := Tlv.exists_encode_of_not_cut hcut
    obtain ⟨hshows, -⟩ := FsFile.round_of_tlv (T := T) (s := s) h.toServes hrest htest
    cases hstep : tlvStep T st.hwRev.found t with
    | accepted f =>
      rw [hstep] at hshows
      obtain ⟨r', hres, hfound⟩ := hshows
      rw [Prog.run_loop_inr (Prod.ext hres rfl)] at hacc
      have hr : r' = r := by simpa using hacc
      exact Or.inl ⟨ts, _, t, rest, ha.passes hrest htest, by rw [hstep, ← hr, hfound]⟩
    | refused =>
      rw [hstep] at hshows
      obtain ⟨r', hres⟩ := hshows
      rw [Prog.run_loop_inr (Prod.ext hres rfl)] at hacc
      simp at hacc
    | undecided g =>
      rw [hstep] at hshows
      obtain ⟨r', hres, hfound⟩ := hshows
      have hin := Tlv.add_length_encode_le hrest
      have hlenlt := h.length_lt
      rw [ImageTlv.sizeT_behind_ofTlv hin hlenlt] at hres
      rw [Prog.run_loop_inl (Prod.ext hres rfl)] at hacc
      refine ih _ (ts ++ [t]) (ha.snoc hrest hstep rfl hfound) ?_ hacc
      show st.dataOff + t.encode.length < _
      omega

private theorem Passes.length_lt (hp : Passes T F start stop ts g rest)
    (hstop : stop < start + 2 ^ 16) : ts.length < tlvLoopRounds := by
  have hfour := Tlv.four_mul_length_le ts
  have htest := hp.test
  have hsize : ImageTlv.size = 4 := rfl
  rw [tlvLoopRounds]
  omega

/-- The loop arrives behind the TLVs that it passes. -/
private theorem Passes.arrive (hp : Passes T F start stop ts g rest) (h : H.Serves F At)
    (hstop : stop < start + 2 ^ 16) (r : FwImageHwRev) (hr : r.found = .none) (s : σ) :
    ∃ st' s' es m, st'.hwRev.found = g ∧ F.drop st'.dataOff = rest ∧
      st'.dataOff + ImageTlv.size ≤ stop ∧ (∀ e ∈ es, FsFile.FullRead e) ∧
      (Prog.loop (fileScanBody T stop) tlvLoopRounds ⟨start, .zero, r⟩).run H s =
        (Prog.loop (fileScanBody T stop) (m + 1) st').run H s' ∧
      (Prog.loop (fileScanBody T stop) tlvLoopRounds ⟨start, .zero, r⟩).trace H s =
        es ++ (Prog.loop (fileScanBody T stop) (m + 1) st').trace H s' := by
  have hrounds := hp.length_lt hstop
  obtain ⟨m, hm⟩ : ∃ m, tlvLoopRounds = ts.length + (m + 1) :=
    ⟨tlvLoopRounds - ts.length - 1, by omega⟩
  have htest := hp.test
  have hscan : scanTlvs T (⟨start, .zero, r⟩ : ScanState).hwRev.found ts = .undecided g := by
    show scanTlvs T r.found ts = _
    rw [hr, hp.scan_eq]
  have hend : (⟨start, .zero, r⟩ : ScanState).dataOff + (Tlv.encodeAll ts).length ≤ stop := by
    show start + _ ≤ stop
    omega
  obtain ⟨st', s', es, hoff, hfound, hes, hrun, htrace⟩ :=
    FsFile.walk h hp.drop_eq hend hscan s (m + 1)
  refine ⟨st', s', es, m, hfound, ?_, ?_, hes, hm ▸ hrun, hm ▸ htrace⟩
  · rw [hoff]
    exact drop_add_of_drop_eq hp.drop_eq rfl
  · rw [hoff]
    exact htest

/-- A TLV that the file holds in full and that completes the revision is accepted. -/
theorem accepts_of_tlv (hp : Passes T F start stop ts g (t.encode ++ rest))
    (h : H.Serves F At) (hstop : stop < start + 2 ^ 16) (ht : tlvStep T g t = .accepted f)
    (r : FwImageHwRev) (hr : r.found = .none) (s : σ) :
    ∃ r', ((Prog.loop (fileScanBody T stop) tlvLoopRounds ⟨start, .zero, r⟩).run H s).1 =
        some (true, r') ∧ r'.found = f ∧
      ∀ e ∈ (Prog.loop (fileScanBody T stop) tlvLoopRounds ⟨start, .zero, r⟩).trace H s,
        FsFile.FullRead e := by
  obtain ⟨st', s', es, m, hfound, hdrop, htest, hes, hrun, htrace⟩ := hp.arrive h hstop r hr s
  obtain ⟨hshows, hfull⟩ := FsFile.round_of_tlv (T := T) (s := s') h hdrop htest
  rw [hfound, ht] at hshows
  obtain ⟨r', hres, hr'⟩ := hshows
  refine ⟨r', ?_, hr', ?_⟩
  · rw [hrun, Prog.run_loop_inr (Prod.ext hres rfl)]
  · rw [htrace, Prog.trace_loop_inr (Prod.ext hres rfl)]
    intro e he
    exact (List.mem_append.mp he).elim (hes e) (hfull e)

/-- A value that is cut but completes the revision is accepted without having been read in full. -/
theorem accepts_of_cut {type len : UInt16} {part : List UInt8}
    (hp : Passes T F start stop ts g (Tlv.header type len.toNat ++ part)) (h : H.Serves F At)
    (hstop : stop < start + 2 ^ 16) (hpart : part.length < len.toNat)
    (htakes : Takes T g type len.toNat) (hcomp : Completes T g type part) (r : FwImageHwRev)
    (hr : r.found = .none) (s : σ) :
    ∃ r', ((Prog.loop (fileScanBody T stop) tlvLoopRounds ⟨start, .zero, r⟩).run H s).1 =
        some (true, r') ∧
      ¬ ∀ e ∈ (Prog.loop (fileScanBody T stop) tlvLoopRounds ⟨start, .zero, r⟩).trace H s,
        FsFile.FullRead e := by
  obtain ⟨st', s', es, m, hfound, hdrop, htest, -, hrun, htrace⟩ := hp.arrive h hstop r hr s
  obtain ⟨hround, hshort⟩ := round_of_cut (T := T) h s' hdrop hpart htest
  rw [← hfound] at htakes hcomp
  rw [roundResult_of_completes htakes hpart.le hcomp] at hround
  refine ⟨_, by rw [hrun, Prog.run_loop_inr (Prod.ext hround rfl)], fun hfull => ?_⟩
  rw [htrace, Prog.trace_loop_inr (Prod.ext hround rfl)] at hfull
  exact hshort htakes fun e he => hfull e (List.mem_append_right _ he)

/-! ## The scan -/

/-- With an image header and a TLV info header, the scan is its loop. -/
theorem find_of_info (h : H.Serves F At) (hlen : ImageHeader.size ≤ F.length)
    {hdr : ImageHeader} (hhdr : ImageHeader.ofBytes (slice F 0 ImageHeader.size) = hdr)
    (hmagic : (infoAt F hdr.tlvAreaOff).itMagic = imageTlvProtInfoMagic) (s : σ)
    (prior : FwImageHwRev) :
    ∃ s' es, ((fwImgHwRevFindInFile T prior).run H s).1 = ((Prog.loop (fileScanBody T
        (hdr.tlvAreaOff + ImageTlvInfo.size + (infoAt F hdr.tlvAreaOff).itTlvTot.toNat))
        tlvLoopRounds ⟨hdr.tlvAreaOff + ImageTlvInfo.size, .zero, prior.reset⟩).run H s').1 ∧
      (hdr.tlvAreaOff + ImageTlvInfo.size ≤ F.length → ∀ e ∈ es, FsFile.FullRead e) ∧
      (fwImgHwRevFindInFile T prior).trace H s = es ++ (Prog.loop (fileScanBody T
        (hdr.tlvAreaOff + ImageTlvInfo.size + (infoAt F hdr.tlvAreaOff).itTlvTot.toNat))
        tlvLoopRounds ⟨hdr.tlvAreaOff + ImageTlvInfo.size, .zero, prior.reset⟩).trace H s' := by
  obtain ⟨s₁, hfind, es₁, hes₁, htrace₁⟩ := FsFile.find_of_header (T := T) prior s h hlen
  rw [hhdr] at hfind htrace₁
  obtain ⟨s₂, hloop, es₂, hes₂, htrace₂⟩ :=
    FsFile.behindHeader_of_magic_eq (T := T) prior.reset s₁ h hmagic
  refine ⟨s₂, es₁ ++ es₂, by rw [hfind, hloop], ?_, by rw [htrace₁, htrace₂, List.append_assoc]⟩
  intro hin e he
  rcases List.mem_append.mp he with he | he
  · exact hes₁ e he
  · exact hes₂.mpr (length_slice_of_le hin) e he

/-- What the scan of a file accepts has been read in full, exactly if the file does not end within
the value that completes its revision. A seek past the end of the file may fail or succeed. -/
theorem readInFull_iff_not_cutInValue (h : H.ServesSought F At) (s : σ) :
    ReadInFull T H s ↔ ¬ CutInValue T F := by
  obtain ⟨hdr, hhdr⟩ : ∃ hdr, ImageHeader.ofBytes (slice F 0 ImageHeader.size) = hdr := ⟨_, rfl⟩
  rw [CutInValue, hhdr]
  by_cases hlen : ImageHeader.size ≤ F.length
  swap
  · refine ⟨fun _ hcut => hlen hcut.1, fun _ prior r hacc => ?_⟩
    rw [FsFile.find_of_short prior s h.toServes (Nat.not_le.mp hlen)] at hacc
    simp at hacc
  by_cases hmagic : (infoAt F hdr.tlvAreaOff).itMagic = imageTlvProtInfoMagic
  swap
  · refine ⟨fun _ hcut => hmagic hcut.2.1, fun _ prior r hacc => ?_⟩
    obtain ⟨s₁, hfind, -⟩ := FsFile.find_of_header (T := T) prior s h.toServes hlen
    rw [hfind, hhdr, FsFile.behindHeader_of_magic_ne prior.reset h.toServes
      (h.at_seek s₁) hmagic] at hacc
    simp at hacc
  have hoff := FsFile.lt_of_magic_eq hmagic
  have hlt := h.length_lt
  have htot := (infoAt F hdr.tlvAreaOff).itTlvTot.toNat_lt
  have hsize : ImageTlvInfo.size = 4 := rfl
  have hscan := find_of_info (T := T) h.toServes hlen hhdr hmagic s
  constructor
  · -- a scan that comes to the cut value accepts it from any structure, so also from zeros
    rintro hfull ⟨-, -, ts, g, type, len, part, hp, hpart, htakes, hcomp⟩
    obtain ⟨s', es, hrun, -, htrace⟩ := hscan ⟨0, Buf.zero _⟩
    obtain ⟨r, hacc, hshort⟩ := accepts_of_cut hp h.toServes (by omega) hpart htakes hcomp
      (FwImageHwRev.reset ⟨0, Buf.zero _⟩) (FwImageHwRev.found_reset _) s'
    obtain ⟨hall, -⟩ := hfull _ r (hrun.trans hacc)
    rw [htrace] at hall
    exact hshort fun e he => hall e (List.mem_append_right _ he)
  · intro hno prior r hacc
    obtain ⟨s', es, hrun, hes, htrace⟩ := hscan prior
    have hcompleted : Completed T F (hdr.tlvAreaOff + ImageTlvInfo.size) _ r.found ∨
        CutBetween T F (hdr.tlvAreaOff + ImageTlvInfo.size) _ :=
      completed_of_accepts h (by omega) _ s' []
        ⟨rfl, rfl, by rw [prior.found_reset, scanTlvs]⟩ (by show hdr.tlvAreaOff + _ < _; omega)
        (hrun.symm.trans hacc)
    rcases hcompleted with ⟨ts, g, t, rest, hp, ht⟩ | hcut
    swap
    · exact absurd ⟨hlen, hmagic, hcut⟩ hno
    have hin : hdr.tlvAreaOff + ImageTlvInfo.size ≤ F.length := by
      have hdrop := hp.drop_eq
      rw [← List.append_assoc] at hdrop
      have := add_length_le_of_drop_eq hdrop (by rw [List.length_append, Tlv.length_encode]; omega)
      omega
    -- the TLV that completes the revision is passed in the same way whatever the structure held
    constructor
    · obtain ⟨-, -, -, hfull⟩ :=
        accepts_of_tlv hp h.toServes (by omega) ht prior.reset prior.found_reset s'
      rw [htrace]
      intro e he
      exact (List.mem_append.mp he).elim (hes hin e) (hfull e)
    · intro prior'
      obtain ⟨s'', -, hrun', -, -⟩ := hscan prior'
      obtain ⟨r', hacc', hfound, -⟩ :=
        accepts_of_tlv hp h.toServes (by omega) ht prior'.reset prior'.found_reset s''
      refine ⟨r', hrun'.trans hacc', ?_, congrArg Found.name hfound⟩
      exact UInt32.toNat_inj.mp (congrArg Found.num hfound)

end

/-- An image with an ID TLV and a name TLV of three bytes, of which the file holds one. -/
def truncatedImage : List UInt8 :=
  imageWith 19 (Tlv.header 0xA0 4 ++ [0, 0, 0, 1] ++ Tlv.header 0xA1 3 ++ [65])

theorem readInFull_iff_not_cutInValue_sample :
    (ReadInFull sampleTypes (FsFile.ofBytes truncatedImage) 0 ↔
        ¬ CutInValue sampleTypes truncatedImage) ∧
      (ReadInFull sampleTypes (FsFile.ofBytesBelow truncatedImage) 0 ↔
        ¬ CutInValue sampleTypes truncatedImage) :=
  ⟨readInFull_iff_not_cutInValue (FsFile.servesPastEnd_ofBytes (by decide)).toServesSought 0,
    readInFull_iff_not_cutInValue (FsFile.servesSought_ofBytesBelow (by decide)) 0⟩

/-- The truncated image is accepted, with a name that depends on what the structure held before. -/
theorem truncatedImage_not_readInFull :
    let scan := fun prior => ((fwImgHwRevFindInFile sampleTypes prior).run
      (FsFile.ofBytes truncatedImage) 0).1
    let prior := ⟨0, (Buf.zero _).write [120, 121, 122]⟩
    (FsFile.ofBytes truncatedImage).ServesPastEnd truncatedImage Eq ∧
      scan ⟨0, Buf.zero _⟩ = some (true, ⟨1, (Buf.zero _).write [65]⟩) ∧
      scan prior = some (true, ⟨1, (Buf.zero _).write [65, 121, 122]⟩) ∧
      ¬ ReadInFull sampleTypes (FsFile.ofBytes truncatedImage) 0 := by
  intro scan prior
  have hzero : scan ⟨0, Buf.zero _⟩ = some (true, ⟨1, (Buf.zero _).write [65]⟩) := by decide
  have hprior : scan prior = some (true, ⟨1, (Buf.zero _).write [65, 121, 122]⟩) := by decide
  refine ⟨FsFile.servesPastEnd_ofBytes (by decide), hzero, hprior, fun hfull => ?_⟩
  obtain ⟨r, hr, -, hname⟩ := (hfull _ _ hzero).2 prior
  obtain rfl : _ = r := congrArg Prod.snd (Option.some.inj (hprior.symm.trans hr))
  exact absurd hname (by decide)

end FwLoader.Image
