import FwLoader.Image.Truncation

/-!
# The headers that the file scan admits

MCUboot refuses an image header with another magic number or with sizes whose sum wraps around. The
file scan checks neither. It looks for the revision at the wrapped sum and accepts any file that
holds one there.
-/

namespace FwLoader.Image

open Foundations

/-- `IMAGE_MAGIC` -/
def imageMagic : UInt32 := 0x96f3b83d

/-- A header whose magic number is right and whose sizes have a sum of 32 bits. -/
structure Admissible (hdr : ImageHeader) : Prop where
  magic_eq : hdr.ihMagic = imageMagic
  sum_lt : hdr.ihHdrSize.toNat + hdr.ihImgSize.toNat < 2 ^ 32

instance (hdr : ImageHeader) : Decidable (Admissible hdr) :=
  decidable_of_iff (hdr.ihMagic = imageMagic ∧ hdr.ihHdrSize.toNat + hdr.ihImgSize.toNat < 2 ^ 32)
    ⟨fun h => ⟨h.1, h.2⟩, fun h => ⟨h.magic_eq, h.sum_lt⟩⟩

/-- The image header at the beginning of a file. -/
def headerOf (F : List UInt8) : ImageHeader := ImageHeader.ofBytes (slice F 0 ImageHeader.size)

/-- The file holds a revision behind the info header at the sum of its two sizes, modulo `2 ^ 32`:
it is completed by a TLV that is stored there in full, or by a value that the file ends in. -/
def HoldsRevision (T : RuuviTlvTypes) (F : List UInt8) : Prop :=
  let hdr := headerOf F
  let info := infoAt F hdr.tlvAreaOff
  let start := hdr.tlvAreaOff + ImageTlvInfo.size
  ImageHeader.size ≤ F.length ∧ info.itMagic = imageTlvProtInfoMagic ∧
    ((∃ f, Completed T F start (start + info.itTlvTot.toNat) f) ∨
      CutBetween T F start (start + info.itTlvTot.toNat))

/-- What the scan of a file accepts has an admissible header, and the area that it has gone through
begins at the exact end of the image. -/
def AdmitsOnlyAdmissible {σ : Type} (T : RuuviTlvTypes) (H : FsFile σ) (F : List UInt8)
    (prior : FwImageHwRev) (s : σ) : Prop :=
  ∀ r, ((fwImgHwRevFindInFile T prior).run H s).1 = some (true, r) →
    Admissible (headerOf F) ∧
      (headerOf F).tlvAreaOff = (headerOf F).ihHdrSize.toNat + (headerOf F).ihImgSize.toNat

section

variable {T : RuuviTlvTypes} {σ : Type} {H : FsFile σ} {F : List UInt8} {At : σ → ℕ → Prop}

theorem Admissible.tlvAreaOff_eq {hdr : ImageHeader} (h : Admissible hdr) :
    hdr.tlvAreaOff = hdr.ihHdrSize.toNat + hdr.ihImgSize.toNat :=
  sizeT_of_lt h.sum_lt

/-- The scan accepts exactly the files that hold a revision where it looks for one. -/
theorem accepts_iff_holdsRevision (h : H.ServesSought F At) (prior : FwImageHwRev) (s : σ) :
    (∃ r, ((fwImgHwRevFindInFile T prior).run H s).1 = some (true, r)) ↔ HoldsRevision T F := by
  obtain ⟨hdr, hhdr⟩ : ∃ hdr, ImageHeader.ofBytes (slice F 0 ImageHeader.size) = hdr := ⟨_, rfl⟩
  rw [HoldsRevision, headerOf, hhdr]
  by_cases hlen : ImageHeader.size ≤ F.length
  swap
  · rw [FsFile.find_of_short prior s h.toServes (Nat.not_le.mp hlen)]
    exact iff_of_false (by simp) fun hstored => hlen hstored.1
  by_cases hmagic : (infoAt F hdr.tlvAreaOff).itMagic = imageTlvProtInfoMagic
  swap
  · obtain ⟨s₁, hfind, -⟩ := FsFile.find_of_header (T := T) prior s h.toServes hlen
    rw [hfind, hhdr, FsFile.behindHeader_of_magic_ne prior.reset h.toServes (h.at_seek s₁) hmagic]
    exact iff_of_false (by simp) fun hstored => hmagic hstored.2.1
  have hoff := FsFile.lt_of_magic_eq hmagic
  have hlt := h.length_lt
  have htot := (infoAt F hdr.tlvAreaOff).itTlvTot.toNat_lt
  have hsize : ImageTlvInfo.size = 4 := rfl
  obtain ⟨s', es, hrun, -, -⟩ := find_of_info (T := T) h.toServes hlen hhdr hmagic s prior
  rw [hrun]
  constructor
  · rintro ⟨r, hacc⟩
    refine ⟨hlen, hmagic, ?_⟩
    have hcompleted : Completed T F (hdr.tlvAreaOff + ImageTlvInfo.size) _ r.found ∨
        CutBetween T F (hdr.tlvAreaOff + ImageTlvInfo.size) _ :=
      completed_of_accepts h (by omega) _ s' []
        ⟨rfl, rfl, by rw [prior.found_reset, scanTlvs]⟩ (by show hdr.tlvAreaOff + _ < _; omega) hacc
    exact hcompleted.imp_left fun hstored => ⟨r.found, hstored⟩
  · rintro ⟨-, -, ⟨f, ts, g, t, rest, hp, ht⟩ | ⟨ts, g, type, len, part, hp, hpart, htakes, hcomp⟩⟩
    · obtain ⟨r, hacc, -, -⟩ :=
        accepts_of_tlv hp h.toServes (by omega) ht prior.reset prior.found_reset s'
      exact ⟨r, hacc⟩
    · obtain ⟨r, hacc, -⟩ := accepts_of_cut hp h.toServes (by omega) hpart htakes hcomp prior.reset
        prior.found_reset s'
      exact ⟨r, hacc⟩

/-- What the scan of a file accepts has an admissible header exactly if the file has one or holds no
revision where the scan looks for it. -/
theorem admitsOnlyAdmissible_iff (h : H.ServesSought F At) (prior : FwImageHwRev) (s : σ) :
    AdmitsOnlyAdmissible T H F prior s ↔ Admissible (headerOf F) ∨ ¬HoldsRevision T F := by
  rw [← accepts_iff_holdsRevision h prior s]
  constructor
  · intro honly
    by_cases hacc : ∃ r, ((fwImgHwRevFindInFile T prior).run H s).1 = some (true, r)
    · obtain ⟨r, hacc⟩ := hacc
      exact .inl (honly r hacc).1
    · exact .inr hacc
  · rintro (hadm | hno) r hacc
    · exact ⟨hadm, hadm.tlvAreaOff_eq⟩
    · exact absurd ⟨r, hacc⟩ hno

end

/-- A file whose two sizes, 64 and `2 ^ 32 - 32`, have the wrapped sum 32, so that the scan comes to
the TLVs that follow the 32 bytes of the header instead of to what is behind the image. -/
def wrappedImage : List UInt8 :=
  toLE 4 imageMagic.toNat ++ toLE 4 0 ++ toLE 2 64 ++ toLE 2 17 ++ toLE 4 (2 ^ 32 - 32) ++
    List.replicate 16 0 ++ Tlv.header imageTlvProtInfoMagic 17 ++
    (Tlv.header 0xA0 4 ++ [0, 0, 0, 1] ++ Tlv.header 0xA1 1 ++ [65])

/-- The same TLVs behind an admissible header. -/
def admissibleImage : List UInt8 :=
  imageWith 17 (Tlv.header 0xA0 4 ++ [0, 0, 0, 1] ++ Tlv.header 0xA1 1 ++ [65])

/-- That file is accepted, as it should be. -/
theorem admitsOnlyAdmissible_iff_sample :
    ((fwImgHwRevFindInFile sampleTypes ⟨0, Buf.zero _⟩).run
        (FsFile.ofBytesBelow admissibleImage) 0).1 = some (true, ⟨1, (Buf.zero _).write [65]⟩) ∧
      AdmitsOnlyAdmissible sampleTypes (FsFile.ofBytesBelow admissibleImage) admissibleImage
        ⟨0, Buf.zero _⟩ 0 :=
  ⟨by decide, (admitsOnlyAdmissible_iff (FsFile.servesSought_ofBytesBelow (by decide))
    ⟨0, Buf.zero _⟩ 0).mpr (.inl (by decide))⟩

/-- A file that the scan accepts by TLVs inside what its header calls the header of the image. -/
theorem wrappedImage_not_admitsOnlyAdmissible :
    (FsFile.ofBytesBelow wrappedImage).ServesSought wrappedImage Eq ∧
      (headerOf wrappedImage).tlvAreaOff = 32 ∧
      ¬AdmitsOnlyAdmissible sampleTypes (FsFile.ofBytesBelow wrappedImage) wrappedImage
        ⟨0, Buf.zero _⟩ 0 := by
  have hacc : ((fwImgHwRevFindInFile sampleTypes ⟨0, Buf.zero _⟩).run
      (FsFile.ofBytesBelow wrappedImage) 0).1 = some (true, ⟨1, (Buf.zero _).write [65]⟩) := by
    decide
  refine ⟨FsFile.servesSought_ofBytesBelow (by decide), by decide, fun honly => ?_⟩
  exact absurd (honly _ hacc).1 (by decide)

end FwLoader.Image
