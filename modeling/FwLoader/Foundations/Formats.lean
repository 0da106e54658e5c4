import FwLoader.Foundations.CString
import Mathlib.Data.Nat.Digits.Lemmas

/-!
# Formatted numbers

The texts that `%u` and `%02X` stand for. `decimal` is read back by `ofDecimal`, has no other bytes
than digits, and is as long as the number has digits; `hexByte` tells all bytes apart.
-/

namespace Foundations.CString

/-- A string literal. -/
def lit (s : String) : CString where
  bytes := (s.toList.map fun c => UInt8.ofNat c.toNat).filter (· ≠ 0)
  noNul c hc := by simpa using (List.mem_filter.mp hc).2

@[simp] theorem bytes_append (s t : CString) : (s ++ t).bytes = s.bytes ++ t.bytes := rfl

theorem strlen_append (s t : CString) : (s ++ t).strlen = s.strlen + t.strlen :=
  List.length_append

/-! ## Decimal numbers -/

/-- The byte is one of the digits `'0'` to `'9'`. -/
def IsDigit (c : UInt8) : Prop := 0x30 ≤ c.toNat ∧ c.toNat < 0x3A

instance : DecidablePred IsDigit := fun _ => inferInstanceAs (Decidable (_ ∧ _))

/-- The character of a digit. -/
def digitChar (d : ℕ) : UInt8 := UInt8.ofNat (0x30 + d)

theorem toNat_digitChar {d : ℕ} (h : d < 10) : (digitChar d).toNat = 0x30 + d :=
  UInt8.toNat_ofNat_of_lt' (by
    show 0x30 + d < 2 ^ 8
    omega)

theorem isDigit_digitChar {d : ℕ} (h : d < 10) : IsDigit (digitChar d) := by
  rw [IsDigit, toNat_digitChar h]
  omega

/-- The digits of a number, the first one first. -/
def decimalBytes (n : ℕ) : List UInt8 :=
  if n = 0 then [digitChar 0] else (Nat.digits 10 n).reverse.map digitChar

theorem isDigit_of_mem_decimalBytes {n : ℕ} {c : UInt8} (h : c ∈ decimalBytes n) : IsDigit c := by
  unfold decimalBytes at h
  split at h
  · rw [List.mem_singleton.mp h]
    exact isDigit_digitChar (by omega)
  · obtain ⟨d, hd, rfl⟩ := List.mem_map.mp h
    exact isDigit_digitChar (Nat.digits_lt_base (by omega) (List.mem_reverse.mp hd))

/-- `%u` -/
def decimal (n : ℕ) : CString where
  bytes := decimalBytes n
  noNul c hc := by
    rintro rfl
    have := (isDigit_of_mem_decimalBytes hc).1
    simp at this

/-- The number that digits stand for. -/
def ofDecimal (bs : List UInt8) : ℕ := bs.foldl (fun n c => 10 * n + (c.toNat - 0x30)) 0

theorem ofDecimal_decimal (n : ℕ) : ofDecimal (decimal n).bytes = n := by
  show ofDecimal (decimalBytes n) = n
  unfold decimalBytes
  by_cases hn : n = 0
  · rw [if_pos hn, hn]
    rfl
  rw [if_neg hn, ofDecimal, List.foldl_map, List.foldl_reverse]
  have hfold : ∀ ds : List ℕ, (∀ d ∈ ds, d < 10) →
      ds.foldr (fun d n => 10 * n + ((digitChar d).toNat - 0x30)) 0 = Nat.ofDigits 10 ds := by
    intro ds hds
    induction ds with
    | nil => rfl
    | cons d ds ih =>
      rw [List.forall_mem_cons] at hds
      rw [List.foldr_cons, ih hds.2, Nat.ofDigits_cons, toNat_digitChar hds.1]
      omega
  rw [hfold _ fun d hd => Nat.digits_lt_base (by omega) hd, Nat.ofDigits_digits]

theorem decimal_injective : Function.Injective decimal := by
  intro m n h
  rw [← ofDecimal_decimal m, h, ofDecimal_decimal]

theorem strlen_decimal_le {n k : ℕ} (hk : 0 < k) (h : n < 10 ^ k) : (decimal n).strlen ≤ k := by
  show (decimalBytes n).length ≤ k
  unfold decimalBytes
  split
  · exact hk
  · rw [List.length_map, List.length_reverse]
    exact (Nat.digits_length_le_iff (by omega) n).mpr h

/-- `%d` -/
def signed (n : ℤ) : CString := if n < 0 then lit "-" ++ decimal n.natAbs else decimal n.toNat

/-! ## Hexadecimal bytes -/

/-- The character of a hexadecimal digit. -/
def hexChar (d : ℕ) : UInt8 := if d < 10 then UInt8.ofNat (0x30 + d) else UInt8.ofNat (0x37 + d)

/-- `%02X` of a byte -/
def hexByte (c : UInt8) : CString where
  bytes := [hexChar (c.toNat / 16), hexChar (c.toNat % 16)]
  noNul d hd := by
    have hne : ∀ k < 16, hexChar k ≠ 0 := by decide
    have hlt := c.toNat_lt
    rcases List.mem_cons.mp hd with rfl | hd
    · exact hne _ (by omega)
    · rw [List.mem_singleton.mp hd]
      exact hne _ (by omega)

theorem hexChar_inj {k l : ℕ} (hk : k < 16) (hl : l < 16) (h : hexChar k = hexChar l) : k = l := by
  have hinj : ∀ k < 16, ∀ l < 16, hexChar k = hexChar l → k = l := by decide
  exact hinj k hk l hl h

theorem hexByte_injective : Function.Injective hexByte := by
  intro c d h
  have hc := c.toNat_lt
  have hd := d.toNat_lt
  obtain ⟨hhigh, hrest⟩ := List.cons.inj (congrArg bytes h)
  have hlow := (List.cons.inj hrest).1
  have h₁ := hexChar_inj (by omega) (by omega) hhigh
  have h₂ := hexChar_inj (by omega) (by omega) hlow
  apply UInt8.toNat_inj.mp
  omega

end Foundations.CString
