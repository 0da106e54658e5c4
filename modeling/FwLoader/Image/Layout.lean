import FwLoader.Foundations.Tlv
import Mathlib.Data.Nat.Bitwise
import Mathlib.Tactic.Positivity

/-!
# Data of the hardware-revision scan

The structures that `fw_img_hw_rev.c` reads from an image (`struct image_header`,
`struct image_tlv_info` and `struct image_tlv` of MCUboot, all little-endian and packed) and the one
it fills (`fw_image_hw_rev_t`). A read stores its bytes over the memory of the structure, so a short
read leaves the rest of the old value standing: that is what `load` says.

The two Ruuvi TLV types come from a header outside the repository and are a parameter.
-/

namespace FwLoader.Image

open Foundations

/-- A `size_t` holds 32 bits: the value left after an unsigned computation. -/
def sizeT (n : ℕ) : ℕ := n % 2 ^ 32

theorem sizeT_of_lt {n : ℕ} (h : n < 2 ^ 32) : sizeT n = n := Nat.mod_eq_of_lt h

/-- `IMAGE_TLV_PROT_INFO_MAGIC` -/
def imageTlvProtInfoMagic : UInt16 := 0x6908

/-- `IMAGE_TLV_INFO_MAGIC`, the magic of the unprotected TLV area -/
def imageTlvInfoMagic : UInt16 := 0x6907

/-- The TLV types `IMAGE_TLV_RUUVI_HW_REV_ID` and `IMAGE_TLV_RUUVI_HW_REV_NAME`. -/
structure RuuviTlvTypes where
  hwRevId : UInt16
  hwRevName : UInt16
  id_ne_name : hwRevId ≠ hwRevName

/-- Two values that the Ruuvi TLV types may have. -/
def sampleTypes : RuuviTlvTypes := ⟨0xA0, 0xA1, by decide⟩

/-! ## Structures read from an image -/

/-- The little-endian 16-bit field at offset `off` of a structure. -/
def field16 (bs : List UInt8) (off : ℕ) : UInt16 := UInt16.ofNat (ofLE (slice bs off 2))

/-- The little-endian 32-bit field at offset `off` of a structure. -/
def field32 (bs : List UInt8) (off : ℕ) : UInt32 := UInt32.ofNat (ofLE (slice bs off 4))

/-- `struct image_version` -/
structure ImageVersion where
  ivMajor : UInt8
  ivMinor : UInt8
  ivRevision : UInt16
  ivBuildNum : UInt32
deriving DecidableEq

/-- `struct image_header` -/
structure ImageHeader where
  ihMagic : UInt32
  ihLoadAddr : UInt32
  ihHdrSize : UInt16
  ihProtectTlvSize : UInt16
  ihImgSize : UInt32
  ihFlags : UInt32
  ihVer : ImageVersion
deriving DecidableEq

namespace ImageHeader

/-- `sizeof(struct image_header)` -/
def size : ℕ := 32

/-- The header whose memory is `bs`; the last four bytes are padding. -/
def ofBytes (bs : List UInt8) : ImageHeader where
  ihMagic := field32 bs 0
  ihLoadAddr := field32 bs 4
  ihHdrSize := field16 bs 8
  ihProtectTlvSize := field16 bs 10
  ihImgSize := field32 bs 12
  ihFlags := field32 bs 16
  ihVer := ⟨bs.getD 20 0, bs.getD 21 0, field16 bs 22, field32 bs 24⟩

/-- `img_hdr.ih_hdr_size + img_hdr.ih_img_size`, an addition of 32-bit unsigned integers. -/
def tlvAreaOff (h : ImageHeader) : ℕ := sizeT (h.ihHdrSize.toNat + h.ihImgSize.toNat)

end ImageHeader

/-- `struct image_tlv_info` -/
structure ImageTlvInfo where
  itMagic : UInt16
  itTlvTot : UInt16
deriving DecidableEq

namespace ImageTlvInfo

/-- `sizeof(struct image_tlv_info)` -/
def size : ℕ := 4

def ofBytes (bs : List UInt8) : ImageTlvInfo := ⟨field16 bs 0, field16 bs 2⟩

/-- `struct image_tlv_info tlv_info = { 0 }` with a read of `new` stored over it. -/
def load (new : List UInt8) : ImageTlvInfo := ofBytes (overlay (List.replicate size 0) new)

end ImageTlvInfo

/-- `struct image_tlv` -/
structure ImageTlv where
  itType : UInt16
  itLen : UInt16
deriving DecidableEq

namespace ImageTlv

/-- `sizeof(struct image_tlv)` -/
def size : ℕ := 4

/-- `struct image_tlv tlv = { 0 }` -/
def zero : ImageTlv := ⟨0, 0⟩

def ofBytes (bs : List UInt8) : ImageTlv := ⟨field16 bs 0, field16 bs 2⟩

/-- The memory of the structure. -/
def toBytes (t : ImageTlv) : List UInt8 := Tlv.header t.itType t.itLen.toNat

/-- The structure after a read of `new` has been stored over it. -/
def load (t : ImageTlv) (new : List UInt8) : ImageTlv := ofBytes (overlay t.toBytes new)

@[simp] theorem length_toBytes (t : ImageTlv) : t.toBytes.length = size := Tlv.length_header _ _

end ImageTlv

private theorem slice_append_left {p q : List UInt8} {n : ℕ} (h : p.length = n) :
    slice (p ++ q) 0 n = p := slice_of_drop_eq rfl h.symm

private theorem slice_append_right {p q : List UInt8} {n m : ℕ} (hp : p.length = n)
    (hq : q.length = m) : slice (p ++ q) n m = q := by
  refine slice_of_drop_eq (q := []) ?_ hq.symm
  rw [List.append_nil, ← hp, List.drop_left]

/-- Two 16-bit numbers stored one after the other, read back as fields. -/
theorem field16_header (a b : UInt16) :
    field16 (Tlv.header a b.toNat) 0 = a ∧ field16 (Tlv.header a b.toNat) 2 = b := by
  have ha := ofLE_toLE (w := 2) a.toNat_lt
  have hb := ofLE_toLE (w := 2) b.toNat_lt
  constructor
  · rw [field16, Tlv.header, slice_append_left (length_toLE 2 _), ha, UInt16.ofNat_toNat]
  · rw [field16, Tlv.header, slice_append_right (length_toLE 2 _) (length_toLE 2 _), hb,
      UInt16.ofNat_toNat]

/-- A full read replaces the whole structure. -/
theorem ImageTlv.load_of_length_eq (t : ImageTlv) {new : List UInt8} (h : new.length = size) :
    t.load new = ofBytes new := by
  rw [load, overlay_of_length_eq (h.trans t.length_toBytes.symm)]

/-- A full read of a TLV header. -/
theorem ImageTlv.load_header (t : ImageTlv) (type len : UInt16) :
    t.load (Tlv.header type len.toNat) = ⟨type, len⟩ := by
  rw [t.load_of_length_eq (Tlv.length_header _ _), ofBytes, (field16_header _ _).1,
    (field16_header _ _).2]

theorem ImageTlvInfo.load_of_length_eq {new : List UInt8} (h : new.length = size) :
    load new = ofBytes new := by
  rw [load, overlay_of_length_eq (by rw [h, List.length_replicate])]

/-- A full read of a TLV info header. -/
theorem ImageTlvInfo.load_header (magic tot : UInt16) :
    load (Tlv.header magic tot.toNat) = ⟨magic, tot⟩ := by
  rw [load_of_length_eq (Tlv.length_header _ _), ofBytes, (field16_header _ _).1,
    (field16_header _ _).2]

/-- The TLV info header that a read at `off` finds in the bytes `B`. -/
def infoAt (B : List UInt8) (off : ℕ) : ImageTlvInfo :=
  ImageTlvInfo.load (slice B off ImageTlvInfo.size)

/-- An image of version 1.2.3+4 without a payload: its header, the info header of a protected TLV
area of `tot` bytes, and `tail` behind it. -/
def imageWith (tot : ℕ) (tail : List UInt8) : List UInt8 :=
  [0x3d, 0xb8, 0xf3, 0x96, 0, 0, 0, 0] ++ toLE 2 ImageHeader.size ++ toLE 2 tot ++
    List.replicate 8 0 ++ [1, 2, 3, 0, 4, 0, 0, 0] ++ List.replicate 4 0 ++
    Tlv.header imageTlvProtInfoMagic tot ++ tail

/-! ## The structure filled in -/

/-- `FW_INFO_HW_REV_NAME_MAX_LEN` -/
def fwInfoHwRevNameMaxLen : ℕ := 15

/-- `fw_image_hw_rev_t` -/
structure FwImageHwRev where
  hwRevNum : UInt32
  hwRevName : Buf (fwInfoHwRevNameMaxLen + 1)
deriving DecidableEq

/-- `hw_rev_num = 0; hw_rev_name[0] = '\0'` -/
def FwImageHwRev.reset (r : FwImageHwRev) : FwImageHwRev := ⟨0, r.hwRevName.set 0 0⟩

/-- Both fields have been found: `('\0' != hw_rev_name[0]) && (0 != hw_rev_num)`. -/
def FwImageHwRev.Complete (r : FwImageHwRev) : Prop := r.hwRevName.first ≠ 0 ∧ r.hwRevNum ≠ 0

instance (r : FwImageHwRev) : Decidable r.Complete := inferInstanceAs (Decidable (_ ∧ _))

/-- `u32_from_bytes_be`: the bytes of `buf` are or-ed into the result, the first one highest. -/
def u32FromBytesBe (buf : Buf 4) : UInt32 :=
  (List.range 4).foldl (fun res i => res ||| (buf.bytes.getD i 0).toUInt32 <<< (24 - i * 8).toUInt32) 0

/-- Or-ing a byte in below a number that has been shifted past it. -/
private theorem or_byte_shiftLeft {x b i : ℕ} (hb : b < 2 ^ 8) :
    x <<< (i + 8) ||| b <<< i = (256 * x + b) <<< i := by
  have hlt : b <<< i < 2 ^ (i + 8) := by
    rw [Nat.shiftLeft_eq, pow_add, mul_comm]
    exact Nat.mul_lt_mul_of_pos_left hb (by positivity)
  rw [← Nat.shiftLeft_add_eq_or_of_lt hlt]
  simp only [Nat.shiftLeft_eq, pow_add]
  ring

/-- The shifts and ors compute the big-endian number stored in the buffer. -/
theorem toNat_u32FromBytesBe (buf : Buf 4) : (u32FromBytesBe buf).toNat = ofBE buf.bytes := by
  obtain ⟨bytes, h⟩ := buf
  obtain ⟨a, b, c, d, rfl⟩ : ∃ a b c d, bytes = [a, b, c, d] := by
    match bytes, h with
    | [a, b, c, d], _ => exact ⟨a, b, c, d, rfl⟩
  have ha := a.toNat_lt
  have hb := b.toNat_lt
  have hc := c.toNat_lt
  have hd := d.toNat_lt
  have hmod : ∀ x : UInt8, ∀ i ≤ 24, x.toNat <<< i % 2 ^ 32 = x.toNat <<< i := by
    intro x i hi
    rw [Nat.shiftLeft_eq]
    apply Nat.mod_eq_of_lt
    calc x.toNat * 2 ^ i < 2 ^ 8 * 2 ^ i := Nat.mul_lt_mul_of_pos_right x.toNat_lt (by positivity)
      _ ≤ 2 ^ 8 * 2 ^ 24 := Nat.mul_le_mul_left _ (Nat.pow_le_pow_right (by norm_num) hi)
      _ = 2 ^ 32 := by norm_num
  have hfold : (u32FromBytesBe ⟨[a, b, c, d], h⟩).toNat
      = a.toNat <<< 24 % 2 ^ 32 ||| b.toNat <<< 16 % 2 ^ 32 ||| c.toNat <<< 8 % 2 ^ 32 |||
        d.toNat <<< 0 := by
    simp [u32FromBytesBe, List.range_succ]
  rw [hfold, hmod a 24 (by omega), hmod b 16 (by omega), hmod c 8 (by omega),
    or_byte_shiftLeft hb, or_byte_shiftLeft hc, or_byte_shiftLeft hd, Nat.shiftLeft_zero]
  simp [ofBE]

end FwLoader.Image
