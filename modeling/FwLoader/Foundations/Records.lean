import FwLoader.Foundations.Bytes

/-!
# Packed records

A packed structure is its fields, stored one after the other. A field is given by its width in bytes
and its value, and is read back from behind the fields in front of it, whatever follows it.
Big-endian numbers are the little-endian ones read backwards.
-/

namespace Foundations

/-- Fields as they are stored, the least significant byte of each first. -/
def storeFields (fs : List (ℕ × ℕ)) : List UInt8 := fs.flatMap fun f => toLE f.1 f.2

/-- The bytes that fields take. -/
def widthOf (fs : List (ℕ × ℕ)) : ℕ := (fs.map Prod.fst).sum

theorem storeFields_append (fs gs : List (ℕ × ℕ)) :
    storeFields (fs ++ gs) = storeFields fs ++ storeFields gs := List.flatMap_append

@[simp] theorem length_storeFields (fs : List (ℕ × ℕ)) : (storeFields fs).length = widthOf fs := by
  induction fs with
  | nil => rfl
  | cons f fs ih =>
    show (toLE f.1 f.2 ++ storeFields fs).length = f.1 + widthOf fs
    rw [List.length_append, length_toLE, ih]

/-- The bytes of a field, found behind those of the fields in front of it. -/
theorem slice_storeFields (before after : List (ℕ × ℕ)) (w n : ℕ) (tail : List UInt8) :
    slice (storeFields (before ++ (w, n) :: after) ++ tail) (widthOf before) w = toLE w n := by
  have hdrop : (storeFields (before ++ (w, n) :: after) ++ tail).drop (widthOf before) =
      toLE w n ++ (storeFields after ++ tail) := by
    rw [storeFields_append, List.append_assoc, ← length_storeFields, List.drop_left]
    exact List.append_assoc _ _ _
  exact slice_of_drop_eq hdrop (length_toLE w n).symm

/-- The value of a field, read back. -/
theorem ofLE_slice_storeFields (before after : List (ℕ × ℕ)) {w n : ℕ} (h : n < 256 ^ w)
    (tail : List UInt8) :
    ofLE (slice (storeFields (before ++ (w, n) :: after) ++ tail) (widthOf before) w) = n := by
  rw [slice_storeFields, ofLE_toLE h]

/-! ## Big-endian numbers -/

/-- A number in `w` bytes, the most significant one first. -/
def toBE (w n : ℕ) : List UInt8 := (toLE w n).reverse

@[simp] theorem length_toBE (w n : ℕ) : (toBE w n).length = w := by
  rw [toBE, List.length_reverse, length_toLE]

theorem ofBE_reverse (bs : List UInt8) : ofBE bs.reverse = ofLE bs := by
  rw [ofBE, List.foldl_reverse]
  induction bs with
  | nil => rfl
  | cons b bs ih =>
    rw [List.foldr_cons, ih, ofLE]
    omega

theorem ofBE_toBE {w n : ℕ} (h : n < 256 ^ w) : ofBE (toBE w n) = n := by
  rw [toBE, ofBE_reverse, ofLE_toLE h]

end Foundations
