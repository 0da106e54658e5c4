import FwLoader.Image.Decoding

/-!
# What the flash scan reads

The revision should come from the protected TLV area only. The scan computes the end of that area
from behind its info header, four bytes too far, and does not check the length of a value against
it. So it stays inside the area exactly if the search through the TLVs that are stored there in full
ends, or is followed by a TLV that reaches over the end and whose value is not taken.
-/

namespace FwLoader.Image

open Foundations

/-! ## The protected area -/

/-- The end of the protected TLV area at `off`. Its info header belongs to it. -/
def protectedEnd (B : List UInt8) (off : ℕ) : ℕ :=
  off + max ImageTlvInfo.size (infoAt B off).itTlvTot.toNat

/-- The bytes behind the info header of the protected TLV area at `off`. -/
def protectedTlvs (B : List UInt8) (off : ℕ) : List UInt8 :=
  slice B (off + ImageTlvInfo.size) ((infoAt B off).itTlvTot.toNat - ImageTlvInfo.size)

/-- A read call that succeeds, or another call. -/
def FlashArea.Succeeds (A : FlashArea) : FlashCall → Prop
  | .flashAreaRead off len => (A.read off len).rc = 0
  | _ => True

instance (A : FlashArea) : DecidablePred A.Succeeds
  | .flashAreaRead _ _ => inferInstanceAs (Decidable (_ = _))
  | .flashAreaOpen _ | .flashAreaClose | .bootImageLoadHeader => inferInstanceAs (Decidable True)

/-- Every read that a program makes of the area succeeds. -/
def FlashArea.ReadsSucceed {α : Type} (A : FlashArea) (p : Prog flashApi α) : Prop :=
  ∀ c ∈ p.calls A, A.Succeeds c

instance {α : Type} (A : FlashArea) (p : Prog flashApi α) : Decidable (A.ReadsSucceed p) :=
  inferInstanceAs (Decidable (∀ c ∈ _, _))

/-- The hardware revision comes from the protected part of the image: nothing behind it is read, and
contents that differ only behind it give the same result. -/
structure ProtectedOnly (T : RuuviTlvTypes) (A : FlashArea) (B : List UInt8) (faId : ℤ)
    (hdr : ImageHeader) (prior : FwImageHwRev) : Prop where
  confined : ∀ c ∈ (fwImgHwRevFindInFlashArea T faId prior).calls A,
    FlashArea.Within hdr.tlvAreaOff (protectedEnd B hdr.tlvAreaOff) c
  same_result : ∀ (A' : FlashArea) (B' : List UInt8), A'.Holds B' → A'.Accepts faId hdr →
    B'.length = B.length → AgreeOn B B' hdr.tlvAreaOff (protectedEnd B hdr.tlvAreaOff) →
    A'.ReadsSucceed (fwImgHwRevFindInFlashArea T faId prior) →
    ∀ ok r, (fwImgHwRevFindInFlashArea T faId prior).eval A = some (ok, r) →
      ∃ r', (fwImgHwRevFindInFlashArea T faId prior).eval A' = some (ok, r') ∧
        (ok = true → r'.hwRevNum = r.hwRevNum ∧ r'.hwRevName.cStr = r.hwRevName.cStr)

/-- A search from `f` through `ts`, the TLVs stored in full, needs nothing behind the `rest` of the
area: it ends, or a TLV follows that reaches over the end and is not taken. -/
def EndsWithin (T : RuuviTlvTypes) (f : Found) (ts : List Tlv) (rest : List UInt8) : Prop :=
  (∀ g, scanTlvs T f ts ≠ .undecided g) ∨
    ∃ (g : Found) (type len : UInt16) (tail : List UInt8), scanTlvs T f ts = .undecided g ∧
      rest = Tlv.header type len.toNat ++ tail ∧ tail.length < len.toNat ∧
      ¬ Takes T g type len.toNat

/-- There is no protected area at `off`, it has no room for a TLV, or the search ends within it. -/
def Sealed (T : RuuviTlvTypes) (B : List UInt8) (off : ℕ) : Prop :=
  (infoAt B off).itMagic ≠ imageTlvProtInfoMagic ∨
    (infoAt B off).itTlvTot.toNat < ImageTlvInfo.size ∨
    ∃ ts rest, protectedTlvs B off = Tlv.encodeAll ts ++ rest ∧ EndsWithin T .none ts rest

section

variable {T : RuuviTlvTypes} {A : FlashArea} {B rest : List UInt8} {faId : ℤ} {hdr : ImageHeader}
  {prior : FwImageHwRev} {st : ScanState} {ts : List Tlv} {n space : ℕ}

/-! ## The loop -/

/-- A loop over the `space` bytes at `data_off` whose reads are all in range. The loop bound is four
bytes behind them. -/
private structure Looping (T : RuuviTlvTypes) (A : FlashArea) (B : List UInt8) (space n : ℕ)
    (st : ScanState) (ts : List Tlv) (rest : List UInt8) : Prop where
  holds : A.Holds B
  in_range : ∀ off len, .flashAreaRead off len ∈
    (Prog.loop (flashScanBody T (st.dataOff + space + ImageTlv.size)) n st).calls A →
      off + len ≤ B.length
  dataOff_le : st.dataOff ≤ B.length
  space_lt : space < 2 ^ 16
  slice_eq : slice B st.dataOff space = Tlv.encodeAll ts ++ rest
  rounds : ts.length + 2 ≤ n

namespace Looping

private theorem drop_eq (h : Looping T A B space n st ts rest) :
    B.drop st.dataOff = Tlv.encodeAll ts ++ (rest ++ B.drop (st.dataOff + space)) := by
  rw [drop_eq_slice_append B st.dataOff space, h.slice_eq, List.append_assoc]

/-- The space ends where it should or where the flash area ends. -/
private theorem length_eq (h : Looping T A B space n st ts rest) :
    st.dataOff + (Tlv.encodeAll ts).length + rest.length = min (st.dataOff + space) B.length := by
  have hlen := congrArg List.length h.slice_eq
  have hle := h.dataOff_le
  rw [length_slice, List.length_append] at hlen
  omega

private theorem mem_calls_loop {tlvsEndOff : ℕ} {c : FlashCall} (hn : 0 < n)
    (hc : c ∈ (flashScanBody T tlvsEndOff st).calls A) :
    c ∈ (Prog.loop (flashScanBody T tlvsEndOff) n st).calls A := by
  obtain ⟨n, rfl⟩ : ∃ m, n = m + 1 := ⟨n - 1, by omega⟩
  rw [Prog.loop, Prog.calls_bind]
  exact List.mem_append_left _ hc

/-- Where the search through the TLVs stored in full comes to no end, the loop arrives behind
them. -/
private theorem arrive (h : Looping T A B space n st ts rest) {g : Found}
    (hg : scanTlvs T st.hwRev.found ts = .undecided g) :
    ∃ st' cs m, st'.dataOff = st.dataOff + (Tlv.encodeAll ts).length ∧ st'.hwRev.found = g ∧
      (∀ c ∈ cs, FlashArea.Within st.dataOff st'.dataOff c) ∧
      (Prog.loop (flashScanBody T (st.dataOff + space + ImageTlv.size)) n st).calls A =
        cs ++ (Prog.loop (flashScanBody T (st.dataOff + space + ImageTlv.size)) (m + 2)
          st').calls A := by
  have hrounds := h.rounds
  have hlen := h.length_eq
  obtain ⟨m, rfl⟩ : ∃ m, n = ts.length + (m + 2) := ⟨n - ts.length - 2, by omega⟩
  obtain ⟨st', cs, hoff, hfound, hcs, -, hcalls⟩ := FlashArea.walk h.holds h.drop_eq
    (by omega : _ ≤ st.dataOff + space + ImageTlv.size) hg (m + 2)
  exact ⟨st', cs, m, hoff, hfound, hcs, hcalls⟩

/-- The header behind the TLVs stored in full, where the area holds one. -/
private theorem read_header (h : Looping T A B space n st ts rest) {st' : ScanState}
    {type len : UInt16} {tail : List UInt8}
    (hoff : st'.dataOff = st.dataOff + (Tlv.encodeAll ts).length)
    (hrest : rest = Tlv.header type len.toNat ++ tail) :
    (A.read st'.dataOff ImageTlv.size).rc = 0 ∧
      st'.tlv.load (A.read st'.dataOff ImageTlv.size).bytes = ⟨type, len⟩ := by
  have hlen := h.length_eq
  have hhdr : ImageTlv.size = (Tlv.header type len.toNat).length := (Tlv.length_header _ _).symm
  rw [hrest, List.length_append, ← hhdr] at hlen
  have hdrop : B.drop st'.dataOff =
      Tlv.header type len.toNat ++ (tail ++ B.drop (st.dataOff + space)) := by
    rw [hoff, drop_add_of_drop_eq h.drop_eq rfl, hrest, List.append_assoc]
  rw [h.holds.read_eq (by omega), slice_of_drop_eq hdrop hhdr]
  exact ⟨rfl, st'.tlv.load_header _ _⟩

/-- A loop makes no call if its next header would lie behind the flash area, or else behind the end
of the loop. -/
private theorem calls_loop_past {tlvsEndOff m : ℕ}
    (hin : ∀ off len, .flashAreaRead off len ∈
      (Prog.loop (flashScanBody T tlvsEndOff) (m + 1) st).calls A → off + len ≤ B.length)
    (hlt : st.dataOff + ImageTlv.size < 2 ^ 32)
    (hpast : st.dataOff + ImageTlv.size ≤ tlvsEndOff →
      B.length < st.dataOff + ImageTlv.size) :
    (Prog.loop (flashScanBody T tlvsEndOff) (m + 1) st).calls A = [] := by
  have hlast : tlvsEndOff < sizeT (st.dataOff + ImageTlv.size) := by
    by_contra hle
    have hmem := mem_calls_loop (Nat.succ_pos m)
      (FlashArea.mem_calls_flashScanBody (T := T) (A := A) (Nat.not_lt.mp hle))
    rw [sizeT_of_lt hlt] at hle
    exact absurd (hin _ _ hmem) (Nat.not_le.mpr (hpast (Nat.not_lt.mp hle)))
  obtain ⟨hend, hnil⟩ := FlashArea.flashScanBody_of_lt (T := T) (A := A) hlast
  rw [Prog.calls_loop_inr hend, hnil]

/-- The loop stays inside its space if the search ends within it. -/
private theorem confined (h : Looping T A B space n st ts rest)
    (hends : EndsWithin T st.hwRev.found ts rest) :
    ∀ c ∈ (Prog.loop (flashScanBody T (st.dataOff + space + ImageTlv.size)) n st).calls A,
      FlashArea.Within st.dataOff (st.dataOff + space) c := by
  have hlen := h.length_eq
  have hsize : ImageTlv.size = 4 := rfl
  rcases hends with hdec | ⟨g, type, len, tail, hg, hrest, htail, hno⟩
  · have hrounds := h.rounds
    obtain ⟨-, -, -, hcs⟩ := FlashArea.loop_of_decided h.holds h.drop_eq
      (by omega : _ ≤ st.dataOff + space + ImageTlv.size) (by omega : ts.length ≤ n) hdec
    exact fun c hc => (hcs c hc).mono (le_refl _) (by omega)
  obtain ⟨st', cs, m, hoff, hfound, hcs, hcalls⟩ := h.arrive hg
  obtain ⟨hrc, htlv⟩ := h.read_header hoff hrest
  have hin := h.in_range
  have hlt := h.holds.length_lt
  have hspace := h.space_lt
  have hbound := len.toNat_lt
  rw [hrest, List.length_append, Tlv.length_header] at hlen
  have htest : sizeT (st'.dataOff + ImageTlv.size) ≤ st.dataOff + space + ImageTlv.size := by
    rw [sizeT_of_lt (by omega)]
    omega
  have hwants : ¬ Wants T st'.hwRev ⟨type, len⟩ := by
    rw [← hfound] at hno
    exact hno
  have hround : (flashScanBody T (st.dataOff + space + ImageTlv.size) st').calls A =
      [.flashAreaRead st'.dataOff ImageTlv.size] := by
    rw [FlashArea.calls_flashScanBody htest hrc htlv, FlashArea.valueCalls, if_neg hwants]
  have hrounds : (Prog.loop (flashScanBody T (st.dataOff + space + ImageTlv.size)) (m + 2)
      st').calls A = [.flashAreaRead st'.dataOff ImageTlv.size] := by
    cases heval : (flashScanBody T (st.dataOff + space + ImageTlv.size) st').eval A with
    | inl st'' =>
      have hcont := Prog.calls_loop_inl (n := m + 1) heval
      have hin' : ∀ off len, .flashAreaRead off len ∈ (Prog.loop
          (flashScanBody T (st.dataOff + space + ImageTlv.size)) (m + 1) st'').calls A →
            off + len ≤ B.length := by
        intro off len hmem
        refine hin off len ?_
        rw [hcalls, hcont]
        exact List.mem_append_right _ (List.mem_append_right _ hmem)
      rw [FlashArea.eval_flashScanBody htest hrc htlv (fun hw => absurd hw hwants)] at heval
      have hoff'' : st''.dataOff = sizeT (st'.dataOff + (ImageTlv.size + len.toNat)) :=
        dataOff_of_roundResult heval
      rw [sizeT_of_lt (by omega)] at hoff''
      rw [hcont, hround, calls_loop_past hin' (by omega) (by omega), List.append_nil]
    | inr out => rw [Prog.calls_loop_inr heval, hround]
  rw [hcalls, hrounds]
  intro c hc
  rcases List.mem_append.mp hc with hc | hc
  · exact (hcs c hc).mono (le_refl _) (by omega)
  · rw [List.mem_singleton.mp hc]
    exact ⟨by omega, by omega⟩

/-- The search ends within the space if the loop stays inside it. -/
private theorem endsWithin (h : Looping T A B space n st ts rest) (hcut : Tlv.Cut rest)
    (hconf : ∀ off len, .flashAreaRead off len ∈
      (Prog.loop (flashScanBody T (st.dataOff + space + ImageTlv.size)) n st).calls A →
        off + len ≤ st.dataOff + space) :
    EndsWithin T st.hwRev.found ts rest := by
  have hlen := h.length_eq
  have hsize : ImageTlv.size = 4 := rfl
  by_cases hdec : ∃ g, scanTlvs T st.hwRev.found ts = .undecided g
  swap
  · exact Or.inl fun g hg => hdec ⟨g, hg⟩
  obtain ⟨g, hg⟩ := hdec
  obtain ⟨st', cs, m, hoff, hfound, -, hcalls⟩ := h.arrive hg
  have hlt := h.holds.length_lt
  have hspace := h.space_lt
  have htest : sizeT (st'.dataOff + ImageTlv.size) ≤ st.dataOff + space + ImageTlv.size := by
    rw [sizeT_of_lt (by omega)]
    omega
  -- A read of this round lies inside the space and inside the flash area.
  have hread : ∀ off len,
      .flashAreaRead off len ∈
        (flashScanBody T (st.dataOff + space + ImageTlv.size) st').calls A →
      off + len ≤ st.dataOff + space ∧ off + len ≤ B.length := by
    intro off len hmem
    have hmem' : .flashAreaRead off len ∈
        (Prog.loop (flashScanBody T (st.dataOff + space + ImageTlv.size)) n st).calls A := by
      rw [hcalls]
      exact List.mem_append_right _ (mem_calls_loop (Nat.succ_pos _) hmem)
    exact ⟨hconf _ _ hmem', h.in_range _ _ hmem'⟩
  rcases hcut with hshort | ⟨type, len, tail, hrest, htail⟩
  · have := hread _ _ (FlashArea.mem_calls_flashScanBody htest)
    omega
  · refine Or.inr ⟨g, type, len, tail, hg, hrest, htail, fun htakes => ?_⟩
    obtain ⟨hrc, htlv⟩ := h.read_header hoff hrest
    have hwants : Wants T st'.hwRev ⟨type, len⟩ := by
      rw [← hfound] at htakes
      exact htakes
    have hmem : .flashAreaRead (sizeT (st'.dataOff + ImageTlv.size)) len.toNat ∈
        (flashScanBody T (st.dataOff + space + ImageTlv.size) st').calls A := by
      rw [FlashArea.calls_flashScanBody htest hrc htlv, FlashArea.valueCalls, if_pos hwants]
      exact List.mem_cons_of_mem _ List.mem_cons_self
    have := hread _ _ hmem
    rw [hrest, List.length_append, Tlv.length_header] at hlen
    rw [sizeT_of_lt (by omega)] at this
    omega

end Looping

/-! ## The scan -/

/-- A round only reads. -/
private theorem not_mem_calls_round {tlvsEndOff : ℕ} {faId' : ℤ} :
    .flashAreaOpen faId' ∉ (flashScanBody T tlvsEndOff st).calls A := by
  by_cases htest : sizeT (st.dataOff + ImageTlv.size) ≤ tlvsEndOff
  swap
  · rw [(FlashArea.flashScanBody_of_lt (Nat.not_le.mp htest)).2]
    exact List.not_mem_nil
  by_cases hrc : (A.read st.dataOff ImageTlv.size).rc = 0
  · rw [FlashArea.calls_flashScanBody htest hrc rfl, FlashArea.valueCalls]
    split <;> simp
  · rw [flashScanBody]
    simp [htest, hrc]

/-- Reads that succeed lie in the flash area. -/
private theorem in_range_of_readsSucceed {α : Type} {p : Prog flashApi α} (h : A.Holds B)
    (hread : A.ReadsSucceed p) {off len : ℕ} (hmem : .flashAreaRead off len ∈ p.calls A) :
    off + len ≤ B.length :=
  Nat.le_of_not_lt fun hout => h.read_oob hout (hread _ hmem)

/-- The scan opens one flash area. -/
private theorem eq_of_mem_calls_open {faId' : ℤ} (h : A.Holds B) (ha : A.Accepts faId hdr)
    (hread : A.ReadsSucceed (fwImgHwRevFindInFlashArea T faId prior))
    (hc : .flashAreaOpen faId' ∈ (fwImgHwRevFindInFlashArea T faId prior).calls A) :
    faId' = faId := by
  have hinfo := in_range_of_readsSucceed h hread (FlashArea.mem_calls_find ha)
  have hlt := h.length_lt
  by_cases hmagic : (infoAt B hdr.tlvAreaOff).itMagic = imageTlvProtInfoMagic
  · obtain ⟨-, hcalls⟩ := FlashArea.find_of_magic_eq (T := T) prior ha (h.read_eq hinfo) hmagic
      (by omega)
    have hloop : ∀ {e n st}, FlashCall.flashAreaOpen faId' ∉
        (Prog.loop (flashScanBody T e) n st).calls A := fun hmem =>
      Prog.forall_mem_calls_loop (P := (· ≠ FlashCall.flashAreaOpen faId'))
        (fun b c hc heq => not_mem_calls_round (heq ▸ hc)) _ hmem rfl
    rw [hcalls] at hc
    simpa [hloop] using hc
  · obtain ⟨-, hcalls⟩ := FlashArea.find_of_magic_ne (T := T) prior ha (h.read_eq hinfo) hmagic
    rw [hcalls] at hc
    simpa using hc

/-- The loop over a protected area without room for TLVs makes no call. -/
private theorem calls_loop_of_lt {off tot : ℕ} {r : FwImageHwRev} (htot : tot < ImageTlv.size)
    (hinfo : off + ImageTlvInfo.size ≤ B.length) (hlt : B.length < 2 ^ 31) :
    (Prog.loop (flashScanBody T (off + ImageTlvInfo.size + tot)) tlvLoopRounds
      ⟨off + ImageTlvInfo.size, .zero, r⟩).calls A = [] := by
  have hsize : ImageTlv.size = 4 := rfl
  have hrounds : tlvLoopRounds = (2 ^ 16 - 1) + 1 := rfl
  have hlast : off + ImageTlvInfo.size + tot <
      sizeT ((⟨off + ImageTlvInfo.size, .zero, r⟩ : ScanState).dataOff + ImageTlv.size) := by
    rw [sizeT_of_lt (by show off + _ + _ < _; omega)]
    show off + _ + _ < off + _ + _
    omega
  obtain ⟨hend, hnil⟩ := FlashArea.flashScanBody_of_lt (T := T) (A := A) hlast
  rw [hrounds, Prog.calls_loop_inr hend, hnil]

/-- The loop over a protected area that has room for TLVs. -/
private theorem confined_iff_sealed_of_loop (h : A.Holds B) {off tot : ℕ}
    (htot : (infoAt B off).itTlvTot.toNat = tot) (hroom : ImageTlvInfo.size ≤ tot)
    (hmagic : (infoAt B off).itMagic = imageTlvProtInfoMagic)
    (hinfo : off + ImageTlvInfo.size ≤ B.length)
    (hin : ∀ o l, .flashAreaRead o l ∈ (Prog.loop
      (flashScanBody T (off + ImageTlvInfo.size + tot)) tlvLoopRounds
        ⟨off + ImageTlvInfo.size, .zero, prior.reset⟩).calls A → o + l ≤ B.length) :
    (∀ c ∈ (Prog.loop (flashScanBody T (off + ImageTlvInfo.size + tot)) tlvLoopRounds
        ⟨off + ImageTlvInfo.size, .zero, prior.reset⟩).calls A,
      FlashArea.Within off (protectedEnd B off) c) ↔ Sealed T B off := by
  have hbound := (infoAt B off).itTlvTot.toNat_lt
  rw [htot] at hbound
  have hsize : ImageTlv.size = 4 := rfl
  have hsize' : ImageTlvInfo.size = 4 := rfl
  have hend : off + ImageTlvInfo.size + tot =
      off + ImageTlvInfo.size + (tot - ImageTlvInfo.size) + ImageTlv.size := by omega
  have hprot : protectedEnd B off = off + ImageTlvInfo.size + (tot - ImageTlvInfo.size) := by
    rw [protectedEnd, htot]
    omega
  rw [hend] at hin ⊢
  rw [hprot]
  have hlooping : ∀ ts rest, protectedTlvs B off = Tlv.encodeAll ts ++ rest →
      Looping T A B (tot - ImageTlvInfo.size) tlvLoopRounds
        ⟨off + ImageTlvInfo.size, .zero, prior.reset⟩ ts rest := by
    intro ts rest hts
    rw [protectedTlvs, htot] at hts
    refine ⟨h, hin, hinfo, by omega, hts, ?_⟩
    have hlen := congrArg List.length hts
    have hfour := Tlv.four_mul_length_le ts
    rw [length_slice, List.length_append] at hlen
    rw [tlvLoopRounds]
    omega
  constructor
  · intro hconf
    obtain ⟨ts, rest, hts, hcut⟩ := Tlv.exists_encodeAll_append (protectedTlvs B off)
    have hends := (hlooping ts rest hts).endsWithin hcut fun o l hmem => (hconf _ hmem).2
    rw [prior.found_reset] at hends
    exact Or.inr (Or.inr ⟨ts, rest, hts, hends⟩)
  · rintro (hno | hno | ⟨ts, rest, hts, hends⟩)
    · exact absurd hmagic hno
    · omega
    · rw [← prior.found_reset] at hends
      intro c hc
      exact ((hlooping ts rest hts).confined hends c hc).mono (Nat.le_add_right _ _) (le_refl _)

/-- The scan reads nothing behind the protected area exactly if the area is sealed. -/
private theorem confined_iff_sealed (h : A.Holds B) (ha : A.Accepts faId hdr)
    (hread : A.ReadsSucceed (fwImgHwRevFindInFlashArea T faId prior)) :
    (∀ c ∈ (fwImgHwRevFindInFlashArea T faId prior).calls A,
      FlashArea.Within hdr.tlvAreaOff (protectedEnd B hdr.tlvAreaOff) c) ↔
        Sealed T B hdr.tlvAreaOff := by
  have hinfo := in_range_of_readsSucceed h hread (FlashArea.mem_calls_find ha)
  have hlt := h.length_lt
  have hsize : ImageTlvInfo.size = 4 := rfl
  have hwithin : FlashArea.Within hdr.tlvAreaOff (protectedEnd B hdr.tlvAreaOff)
      (.flashAreaRead hdr.tlvAreaOff ImageTlvInfo.size) :=
    ⟨le_refl _, Nat.add_le_add_left (le_max_left _ _) _⟩
  by_cases hmagic : (infoAt B hdr.tlvAreaOff).itMagic = imageTlvProtInfoMagic
  swap
  · obtain ⟨-, hcalls⟩ := FlashArea.find_of_magic_ne (T := T) prior ha (h.read_eq hinfo) hmagic
    refine ⟨fun _ => Or.inl hmagic, fun _ => ?_⟩
    simp [hcalls, FlashArea.Within, protectedEnd]
  obtain ⟨-, hcalls⟩ :=
    FlashArea.find_of_magic_eq (T := T) prior ha (h.read_eq hinfo) hmagic (by omega)
  have hloop : (∀ c ∈ (fwImgHwRevFindInFlashArea T faId prior).calls A,
      FlashArea.Within hdr.tlvAreaOff (protectedEnd B hdr.tlvAreaOff) c) ↔ ∀ c ∈ (Prog.loop
        (flashScanBody T (hdr.tlvAreaOff + ImageTlvInfo.size +
          (infoAt B hdr.tlvAreaOff).itTlvTot.toNat)) tlvLoopRounds
          ⟨hdr.tlvAreaOff + ImageTlvInfo.size, .zero, prior.reset⟩).calls A,
      FlashArea.Within hdr.tlvAreaOff (protectedEnd B hdr.tlvAreaOff) c := by
    rw [hcalls]
    simp only [List.forall_mem_cons, List.forall_mem_append, hwithin]
    simp [FlashArea.Within]
  rw [hloop]
  rcases Nat.lt_or_ge (infoAt B hdr.tlvAreaOff).itTlvTot.toNat ImageTlvInfo.size with
    htot | htot
  · refine ⟨fun _ => Or.inr (Or.inl htot), fun _ => ?_⟩
    rw [calls_loop_of_lt htot hinfo hlt]
    simp
  · apply confined_iff_sealed_of_loop h rfl htot hmagic hinfo
    intro o l hmem
    refine in_range_of_readsSucceed h hread ?_
    rw [hcalls]
    simp [hmem]

/-- A scan that reads the protected area only gives the same result on contents that differ behind
that area only. -/
private theorem eval_eq_of_confined (h : A.Holds B) (ha : A.Accepts faId hdr)
    (hread : A.ReadsSucceed (fwImgHwRevFindInFlashArea T faId prior))
    (hconf : ∀ c ∈ (fwImgHwRevFindInFlashArea T faId prior).calls A,
      FlashArea.Within hdr.tlvAreaOff (protectedEnd B hdr.tlvAreaOff) c)
    {A' : FlashArea} {B' : List UInt8} (h' : A'.Holds B') (ha' : A'.Accepts faId hdr)
    (hlen : B'.length = B.length)
    (hagree : AgreeOn B B' hdr.tlvAreaOff (protectedEnd B hdr.tlvAreaOff)) :
    (fwImgHwRevFindInFlashArea T faId prior).eval A =
      (fwImgHwRevFindInFlashArea T faId prior).eval A' := by
  refine (Prog.eval_eq_of_agree _ fun c hc => ?_).1
  cases c with
  | flashAreaOpen faId' =>
    rw [eq_of_mem_calls_open h ha hread hc]
    exact ha.openRc_eq.trans ha'.openRc_eq.symm
  | flashAreaClose => rfl
  | bootImageLoadHeader => exact ha.loadHeader_eq.trans ha'.loadHeader_eq.symm
  | flashAreaRead off len =>
    have hin := in_range_of_readsSucceed h hread hc
    obtain ⟨hlo, hhi⟩ := hconf _ hc
    show A.read off len = A'.read off len
    rw [h.read_eq hin, h'.read_eq (hlen ▸ hin), hagree.slice_eq hlo hhi]

/-- The revision comes from the protected part of the image exactly if the protected area is
sealed. -/
theorem protectedOnly_iff_sealed (h : A.Holds B) (ha : A.Accepts faId hdr)
    (hread : A.ReadsSucceed (fwImgHwRevFindInFlashArea T faId prior)) :
    ProtectedOnly T A B faId hdr prior ↔ Sealed T B hdr.tlvAreaOff := by
  rw [← confined_iff_sealed h ha hread]
  refine ⟨ProtectedOnly.confined, fun hconf => ⟨hconf, ?_⟩⟩
  intro A' B' h' ha' hlen hagree _ ok r heval
  rw [eval_eq_of_confined h ha hread hconf h' ha' hlen hagree] at heval
  exact ⟨r, heval, fun _ => ⟨rfl, rfl⟩⟩

end

theorem protectedOnly_iff_sealed_sample :
    ProtectedOnly sampleTypes (FlashArea.ofBytes sampleImage) sampleImage 1
        (ImageHeader.ofBytes (slice sampleImage 0 ImageHeader.size)) ⟨7, Buf.zero _⟩ ↔
      Sealed sampleTypes sampleImage 32 :=
  protectedOnly_iff_sealed (FlashArea.holds_ofBytes (by decide))
    (FlashArea.accepts_ofBytes sampleImage 1) (by decide)

/-- An image whose protected area holds one TLV, the name "A", with `tail` behind the area. -/
def overrunImage (tail : List UInt8) : List UInt8 :=
  imageWith 9 (Tlv.header 0xA1 1 ++ [65]) ++ tail

/-- An ID TLV behind the protected area is taken: two flash contents that differ only there are
accepted and refused. -/
theorem overrun_not_protectedOnly :
    let B := overrunImage (Tlv.header 0xA0 4 ++ [0, 0, 0, 1])
    let B' := overrunImage (Tlv.header 0 0 ++ [0, 0, 0, 0])
    let hdr := ImageHeader.ofBytes (slice B 0 ImageHeader.size)
    let scan := fwImgHwRevFindInFlashArea sampleTypes 1 ⟨0, Buf.zero _⟩
    ((FlashArea.ofBytes B).Holds B ∧ (FlashArea.ofBytes B).Accepts 1 hdr ∧
      (FlashArea.ofBytes B).ReadsSucceed scan) ∧
    ((FlashArea.ofBytes B').Holds B' ∧ (FlashArea.ofBytes B').Accepts 1 hdr ∧
      (FlashArea.ofBytes B').ReadsSucceed scan) ∧
    B.length = B'.length ∧ AgreeOn B B' 0 (protectedEnd B 32) ∧
    (∃ r, scan.eval (FlashArea.ofBytes B) = some (true, r)) ∧
    (∃ r, scan.eval (FlashArea.ofBytes B') = some (false, r)) ∧
    ¬ ProtectedOnly sampleTypes (FlashArea.ofBytes B) B 1 hdr ⟨0, Buf.zero _⟩ := by
  intro B B' hdr scan
  have hholds : (FlashArea.ofBytes B').Holds B' := FlashArea.holds_ofBytes (by decide)
  have haccepts : (FlashArea.ofBytes B').Accepts 1 hdr := ⟨rfl, by decide⟩
  have hread : (FlashArea.ofBytes B').ReadsSucceed scan := by decide
  have hagree : AgreeOn B B' 0 (protectedEnd B 32) := agreeOn_append (by decide)
  have htrue : scan.eval (FlashArea.ofBytes B) = some (true, ⟨1, (Buf.zero _).set 0 65⟩) := by
    decide
  have hfalse : scan.eval (FlashArea.ofBytes B') = some (false, ⟨0, (Buf.zero _).set 0 65⟩) := by
    decide
  refine ⟨⟨FlashArea.holds_ofBytes (by decide), FlashArea.accepts_ofBytes B 1, by decide⟩,
    ⟨hholds, haccepts, hread⟩, by decide, hagree, ⟨_, htrue⟩, ⟨_, hfalse⟩, fun hprot => ?_⟩
  obtain ⟨r, heval, -⟩ := hprot.same_result _ B' hholds haccepts (by decide)
    (fun i _ => hagree i (Nat.zero_le i)) hread true _ htrue
  exact absurd (heval.symm.trans hfalse) (by simp)

end FwLoader.Image
