import FwLoader.Foundations.Formats
import Mathlib.Data.Nat.Bitwise
import Mathlib.Tactic.Positivity

/-!
# The Bluetooth address and the name of the device

`radio_address_get` puts the bytes of the address together to a number and makes the name that the
device is found by of the two low ones. The name fills its array to the end, so that the scan
response, which sends the whole array, sends the NUL too.
-/

namespace FwLoader.Bluetooth

open Foundations

/-! ## The code -/

/-- `bt_addr_t`, the lowest byte first. -/
abbrev BtAddr := Buf 6

/-- The loop of `radio_address_get`, up to the byte `i`. -/
def macOf (val : BtAddr) (i : ℕ) : UInt64 :=
  (List.range i).foldl (fun mac i => mac ||| (val.bytes.getD i 0).toUInt64 <<< (i * 8).toUInt64) 0

/-- `sizeof(g_bt_name)`: the name with its NUL and five characters more. -/
def sizeofGBtName (btDeviceName : CString) : ℕ := btDeviceName.strlen + 1 + 5

/-- `"%s %02X%02X"` -/
def btNameText (btDeviceName : CString) (val : BtAddr) : CString :=
  btDeviceName ++ .lit " " ++ .hexByte (val.bytes.getD 1 0) ++ .hexByte (val.bytes.getD 0 0)

/-- `radio_address_get`: the result and `g_bt_name` afterwards. `count` and `val` are what
`bt_id_get` stores. -/
def radioAddressGet (btDeviceName : CString) (count : ℕ) (val : BtAddr)
    (gBtName : Buf (sizeofGBtName btDeviceName)) : UInt64 × Buf (sizeofGBtName btDeviceName) :=
  let mac := if count > 0 then macOf val 6 else 0
  (mac, gBtName.snprintf (btNameText btDeviceName val))

/-! ## The number -/

theorem toNat_macOf (val : BtAddr) {i : ℕ} (hi : i ≤ 6) :
    (macOf val i).toNat = ofLE (val.bytes.take i) := by
  induction i with
  | zero => rfl
  | succ i ih =>
    have hlen : i < val.bytes.length := by
      rw [val.length_eq]
      omega
    have hlow : ofLE (val.bytes.take i) < 2 ^ (i * 8) := by
      have hlt := ofLE_lt (val.bytes.take i)
      rw [List.length_take_of_le hlen.le] at hlt
      rw [mul_comm, pow_mul]
      exact hlt
    have hbyte := (val.bytes[i]).toNat_lt
    have hshift : ((val.bytes[i]).toUInt64 <<< (i * 8).toUInt64).toNat =
        (val.bytes[i]).toNat <<< (i * 8) := by
      have hi8 : (i * 8).toUInt64.toNat % 64 = i * 8 := by
        rw [UInt64.toNat_ofNat']
        omega
      rw [UInt64.toNat_shiftLeft, hi8, UInt8.toNat_toUInt64]
      apply Nat.mod_eq_of_lt
      calc (val.bytes[i]).toNat <<< (i * 8) = (val.bytes[i]).toNat * 2 ^ (i * 8) :=
            Nat.shiftLeft_eq _ _
        _ < 2 ^ 8 * 2 ^ (i * 8) := Nat.mul_lt_mul_of_pos_right hbyte (by positivity)
        _ = 2 ^ (8 + i * 8) := (pow_add _ _ _).symm
        _ ≤ 2 ^ 64 := Nat.pow_le_pow_right (by omega) (by omega)
    have hnext : macOf val (i + 1) =
        macOf val i ||| (val.bytes[i]).toUInt64 <<< (i * 8).toUInt64 := by
      unfold macOf
      rw [List.range_succ, List.foldl_append, List.foldl_cons, List.foldl_nil,
        List.getD_eq_getElem _ _ hlen]
    rw [hnext, UInt64.toNat_or, ih (by omega), hshift, Nat.or_comm,
      ← Nat.shiftLeft_add_eq_or_of_lt hlow, List.take_add_one, List.getElem?_eq_getElem hlen,
      Option.toList_some, ofLE_append, List.length_take_of_le hlen.le, Nat.shiftLeft_eq, mul_comm i,
      pow_mul, Nat.add_comm, Nat.mul_comm]
    simp [ofLE]

/-- The bytes of the number are those of the address, and two zeros. -/
theorem toLE_mac (val : BtAddr) : toLE 8 (macOf val 6).toNat = val.bytes ++ [0, 0] := by
  have htake : val.bytes.take 6 = val.bytes := List.take_of_length_le val.length_eq.le
  have hzeros : ofLE val.bytes = ofLE (val.bytes ++ [0, 0]) := by simp [ofLE_append, ofLE]
  have hlen : (val.bytes ++ [0, 0]).length = 8 := by simp [val.length_eq]
  rw [toNat_macOf val (Nat.le_refl 6), htake, hzeros, ← hlen, toLE_ofLE]

/-! ## The name -/

/-- The text is stored in full, with its NUL at the end of the array. -/
theorem bytes_gBtName (btDeviceName : CString) (count : ℕ) (val : BtAddr)
    (gBtName : Buf (sizeofGBtName btDeviceName)) :
    (radioAddressGet btDeviceName count val gBtName).2.bytes =
      (btNameText btDeviceName val).bytes ++ [0] := by
  apply Buf.bytes_snprintf_of_strlen
  simp only [btNameText, CString.strlen_append]
  rfl

/-- The name tells the two low bytes. -/
theorem btNameText_inj {btDeviceName : CString} {val val' : BtAddr} :
    btNameText btDeviceName val = btNameText btDeviceName val' ↔
      val.bytes.getD 1 0 = val'.bytes.getD 1 0 ∧ val.bytes.getD 0 0 = val'.bytes.getD 0 0 := by
  constructor
  · intro h
    have hbytes := congrArg CString.bytes h
    simp only [btNameText, CString.bytes_append] at hbytes
    obtain ⟨hfront, hlow⟩ := List.append_inj' hbytes rfl
    obtain ⟨-, hhigh⟩ := List.append_inj' hfront rfl
    exact ⟨CString.hexByte_injective (CString.ext hhigh),
      CString.hexByte_injective (CString.ext hlow)⟩
  · rintro ⟨hhigh, hlow⟩
    rw [btNameText, hhigh, hlow, btNameText]

theorem take_two_eq_iff {val val' : BtAddr} : val.bytes.take 2 = val'.bytes.take 2 ↔
    val.bytes.getD 1 0 = val'.bytes.getD 1 0 ∧ val.bytes.getD 0 0 = val'.bytes.getD 0 0 := by
  obtain ⟨bytes, h⟩ := val
  obtain ⟨bytes', h'⟩ := val'
  match bytes, bytes', h, h' with
  | b₀ :: b₁ :: rest, b₀' :: b₁' :: rest', _, _ =>
    simp [and_comm]

/-- The number has the bytes of the address. The name stands in its array in full, with the two low
bytes and its NUL, so that devices of one model are found by the same name exactly if their
addresses agree in these two bytes. -/
theorem gBtName_eq_iff (btDeviceName : CString) {count count' : ℕ} (hcount : 0 < count)
    (val val' : BtAddr) (b b' : Buf (sizeofGBtName btDeviceName)) :
    toLE 8 (radioAddressGet btDeviceName count val b).1.toNat = val.bytes ++ [0, 0] ∧
    (radioAddressGet btDeviceName count val b).2.bytes = btDeviceName.bytes ++ [0x20] ++
      (CString.hexByte (val.bytes.getD 1 0)).bytes ++
      (CString.hexByte (val.bytes.getD 0 0)).bytes ++ [0] ∧
    ((radioAddressGet btDeviceName count val b).2 =
        (radioAddressGet btDeviceName count' val' b').2 ↔
      val.bytes.take 2 = val'.bytes.take 2) := by
  have hmac : (radioAddressGet btDeviceName count val b).1 = macOf val 6 := if_pos hcount
  refine ⟨?_, ?_, ?_⟩
  · rw [hmac, toLE_mac]
  · rw [bytes_gBtName]
    simp only [btNameText, CString.bytes_append]
    rfl
  · rw [Buf.ext_iff, bytes_gBtName, bytes_gBtName, List.append_left_inj, ← CString.ext_iff,
      btNameText_inj, take_two_eq_iff]

/-- Two addresses that differ above the low bytes. -/
theorem gBtName_eq_iff_sample :
    toLE 8 (radioAddressGet (.lit "RuuviAir") 1 ⟨[1, 2, 3, 4, 5, 6], rfl⟩ (.zero _)).1.toNat =
      [1, 2, 3, 4, 5, 6, 0, 0] ∧
    (radioAddressGet (.lit "RuuviAir") 1 ⟨[1, 2, 3, 4, 5, 6], rfl⟩ (.zero _)).2.bytes =
      (CString.lit "RuuviAir 0201").bytes ++ [0] ∧
    (radioAddressGet (.lit "RuuviAir") 1 ⟨[1, 2, 3, 4, 5, 6], rfl⟩ (.zero _)).2 =
      (radioAddressGet (.lit "RuuviAir") 1 ⟨[1, 2, 7, 8, 9, 10], rfl⟩ (.zero _)).2 := by
  obtain ⟨hmac, hname, hiff⟩ := @gBtName_eq_iff (.lit "RuuviAir") 1 1 Nat.one_pos
    ⟨[1, 2, 3, 4, 5, 6], rfl⟩ ⟨[1, 2, 7, 8, 9, 10], rfl⟩ (.zero _) (.zero _)
  exact ⟨hmac, hname.trans (by decide), hiff.mpr rfl⟩

end FwLoader.Bluetooth
