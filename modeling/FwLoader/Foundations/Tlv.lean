import FwLoader.Foundations.Bytes

/-!
# Type-length-value lists

A TLV is stored as its type and the length of its value, two bytes each, least significant byte
first, and the value behind them. A list of TLVs is stored one after the other.
-/

namespace Foundations

/-- A type-length-value record whose length field is 16 bits wide. -/
structure Tlv where
  type : UInt16
  value : List UInt8
  length_lt : value.length < 2 ^ 16
deriving DecidableEq

namespace Tlv

/-- The four bytes in front of a value. -/
def header (type : UInt16) (len : ℕ) : List UInt8 := toLE 2 type.toNat ++ toLE 2 len

/-- A TLV as it is stored. -/
def encode (t : Tlv) : List UInt8 := header t.type t.value.length ++ t.value

/-- A list of TLVs as it is stored. -/
def encodeAll (ts : List Tlv) : List UInt8 := ts.flatMap encode

@[simp] theorem length_header (type : UInt16) (len : ℕ) : (header type len).length = 4 := by
  simp [header]

/-- Any four bytes are a header. -/
theorem exists_header (bs : List UInt8) (h : bs.length = 4) :
    ∃ type len : UInt16, bs = header type len.toNat := by
  obtain ⟨a, b, c, d, rfl⟩ : ∃ a b c d, bs = [a, b, c, d] := by
    match bs, h with
    | [a, b, c, d], _ => exact ⟨a, b, c, d, rfl⟩
  have hback : ∀ x y : UInt8, toLE 2 (UInt16.ofNat (ofLE [x, y])).toNat = [x, y] := fun x y => by
    rw [UInt16.toNat_ofNat_of_lt' ((ofLE_lt [x, y]).trans_eq (by norm_num))]
    exact toLE_ofLE [x, y]
  refine ⟨UInt16.ofNat (ofLE [a, b]), UInt16.ofNat (ofLE [c, d]), ?_⟩
  rw [header, hback, hback]
  rfl

@[simp] theorem length_encode (t : Tlv) : t.encode.length = 4 + t.value.length := by
  simp [encode]

/-- A TLV that is stored at an offset ends inside the byte string. -/
theorem add_length_encode_le {l rest : List UInt8} {off : ℕ} {t : Tlv}
    (h : l.drop off = t.encode ++ rest) : off + t.encode.length ≤ l.length :=
  add_length_le_of_drop_eq h (by rw [length_encode]; omega)

@[simp] theorem encodeAll_nil : encodeAll [] = [] := rfl

@[simp] theorem encodeAll_cons (t : Tlv) (ts : List Tlv) :
    encodeAll (t :: ts) = t.encode ++ encodeAll ts := rfl

@[simp] theorem encodeAll_append (ts us : List Tlv) :
    encodeAll (ts ++ us) = encodeAll ts ++ encodeAll us := List.flatMap_append

/-- Every TLV takes at least its four header bytes. -/
theorem four_mul_length_le (ts : List Tlv) : 4 * ts.length ≤ (encodeAll ts).length := by
  induction ts with
  | nil => simp
  | cons t ts ih =>
    simp only [encodeAll_cons, List.length_append, List.length_cons, length_encode]
    omega

/-- What follows the last TLV that is stored in full: too few bytes for a header, or a header with
more of a value announced than there is. -/
def Cut (rest : List UInt8) : Prop :=
  rest.length < 4 ∨ ∃ (type len : UInt16) (tail : List UInt8),
    rest = header type len.toNat ++ tail ∧ tail.length < len.toNat

/-- Headers are stored differently unless they are the same. -/
theorem header_inj {type type' len len' : UInt16}
    (h : header type len.toNat = header type' len'.toNat) : type = type' ∧ len = len' := by
  have hback : ∀ n : UInt16, ofLE (toLE 2 n.toNat) = n.toNat := fun n => ofLE_toLE n.toNat_lt
  obtain ⟨htype, hlen⟩ := List.append_inj h (by rw [length_toLE, length_toLE])
  constructor
  · rw [← UInt16.toNat_inj, ← hback type, htype, hback]
  · rw [← UInt16.toNat_inj, ← hback len, hlen, hback]

/-- A byte string that starts with a TLV is not cut. -/
theorem not_cut_encode_append (t : Tlv) (rest : List UInt8) : ¬Cut (t.encode ++ rest) := by
  rintro (hshort | ⟨type, len, tail, heq, htail⟩)
  · rw [List.length_append, length_encode] at hshort
    omega
  · have hlen : (UInt16.ofNat t.value.length).toNat = t.value.length :=
      UInt16.toNat_ofNat_of_lt' t.length_lt
    rw [encode, ← hlen, List.append_assoc] at heq
    obtain ⟨hhdr, rfl⟩ := List.append_inj heq (by rw [length_header, length_header])
    rw [← (header_inj hhdr).2, hlen, List.length_append] at htail
    omega

/-- A byte string that is not cut starts with a TLV. -/
theorem exists_encode_of_not_cut {bs : List UInt8} (h : ¬ Cut bs) :
    ∃ (t : Tlv) (rest : List UInt8), bs = t.encode ++ rest := by
  have hfour : 4 ≤ bs.length := Nat.le_of_not_lt fun hlt => h (Or.inl hlt)
  obtain ⟨type, len, hhdr⟩ := exists_header (bs.take 4) (by simp [hfour])
  have hbs : bs = header type len.toNat ++ bs.drop 4 := by rw [← hhdr, List.take_append_drop]
  have hlen : len.toNat ≤ (bs.drop 4).length :=
    Nat.le_of_not_lt fun hlt => h (Or.inr ⟨type, len, bs.drop 4, hbs, hlt⟩)
  have hvalue : ((bs.drop 4).take len.toNat).length = len.toNat := List.length_take_of_le hlen
  refine ⟨⟨type, (bs.drop 4).take len.toNat, hvalue.trans_lt len.toNat_lt⟩,
    (bs.drop 4).drop len.toNat, ?_⟩
  have hencode : header type ((bs.drop 4).take len.toNat).length ++ (bs.drop 4).take len.toNat ++
      (bs.drop 4).drop len.toNat = bs := by
    rw [hvalue, List.append_assoc, List.take_append_drop, ← hbs]
  exact hencode.symm

/-- Every byte string is a list of TLVs and a cut rest. The induction is on the length. -/
theorem exists_encodeAll_append (bs : List UInt8) :
    ∃ (ts : List Tlv) (rest : List UInt8), bs = encodeAll ts ++ rest ∧ Cut rest := by
  induction hn : bs.length using Nat.strong_induction_on generalizing bs with
  | _ n ih =>
    by_cases hcut : Cut bs
    · exact ⟨[], bs, rfl, hcut⟩
    obtain ⟨t, tail, rfl⟩ := exists_encode_of_not_cut hcut
    have hlt : tail.length < n := by
      rw [← hn, List.length_append, length_encode]
      omega
    obtain ⟨ts, rest, rfl, hrest⟩ := ih tail.length hlt tail rfl
    exact ⟨t :: ts, rest, by rw [encodeAll_cons, List.append_assoc], hrest⟩

end Tlv

end Foundations
