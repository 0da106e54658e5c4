import FwLoader.Foundations.CString
import Mathlib.Algebra.Order.Group.Nat

/-!
# Searching and copying C strings

Pointers into a string are positions in it. A difference of pointers that would wrap around, a read
behind the end of a string and a store behind the end of an array have no value, so that a function
whose result is `some` made none of them. The second part says what a row of stores leaves in the
array that it fills from the front.
-/

namespace Foundations

/-- `p - q`, converted to a `size_t`. -/
def ptrDiff (p q : ℕ) : Option ℕ := if q ≤ p then some (p - q) else none

theorem ptrDiff_of_le {p q : ℕ} (h : q ≤ p) : ptrDiff p q = some (p - q) := if_pos h

/-! ## Searching -/

/-- `strcspn` -/
def strcspn (s reject : CString) : ℕ := (s.bytes.takeWhile (· ∉ reject.bytes)).length

/-- The position that `strchr (s + off, c)` finds, of a byte `c` that is not NUL. -/
def strchr (s : CString) (off : ℕ) (c : UInt8) : Option ℕ :=
  ((s.bytes.drop off).idxOf? c).map (off + ·)

theorem idxOf?_append_cons {p q : List UInt8} {c : UInt8} (h : c ∉ p) :
    (p ++ c :: q).idxOf? c = some p.length := by
  induction p with
  | nil => simp [List.idxOf?_cons]
  | cons d p ih =>
    rw [List.mem_cons, not_or] at h
    rw [List.cons_append, List.idxOf?_cons, if_neg (by simpa using Ne.symm h.1), ih h.2]
    rfl

/-- The span ends in front of the first rejected byte. -/
theorem strcspn_eq {s reject : CString} {p q : List UInt8} {c : UInt8} (hs : s.bytes = p ++ c :: q)
    (hp : ∀ d ∈ p, d ∉ reject.bytes) (hc : c ∈ reject.bytes) : strcspn s reject = p.length := by
  have hall : ∀ d ∈ p, decide (d ∉ reject.bytes) = true := fun d hd => decide_eq_true (hp d hd)
  rw [strcspn, hs, List.takeWhile_append_of_pos hall,
    List.takeWhile_cons_of_neg (by simpa using hc),
    List.append_nil]

/-- The search finds the first `c` that follows the position it starts at. -/
theorem strchr_eq_some {s : CString} {o p q : List UInt8} {c : UInt8} {off : ℕ}
    (hs : s.bytes = o ++ (p ++ c :: q)) (hoff : off = o.length) (hp : c ∉ p) :
    strchr s off c = some (off + p.length) := by
  rw [strchr, hs, hoff, List.drop_left, idxOf?_append_cons hp]
  rfl

/-- Nothing is found of a byte that the string does not have. -/
theorem strchr_eq_none {s : CString} {off : ℕ} {c : UInt8} (h : c ∉ s.bytes) :
    strchr s off c = none := by
  rw [strchr, Option.map_eq_none_iff, List.idxOf?_eq_none_iff]
  exact fun hc => h (List.mem_of_mem_drop hc)

/-! ## Copying -/

/-- The `len` bytes that `memcpy` reads at `off`. -/
def CString.read (s : CString) (off len : ℕ) : Option (List UInt8) :=
  if off + len ≤ s.strlen then some (slice s.bytes off len) else none

theorem CString.read_eq {s : CString} {o p q : List UInt8} {off len : ℕ}
    (hs : s.bytes = o ++ (p ++ q)) (hoff : off = o.length) (hlen : len = p.length) :
    s.read off len = some p := by
  have hfit : off + len ≤ s.strlen := by
    rw [CString.strlen, hs, List.length_append, List.length_append]
    omega
  have hdrop : s.bytes.drop off = p ++ q := by rw [hs, hoff, List.drop_left]
  rw [CString.read, if_pos hfit, slice_of_drop_eq hdrop hlen]

namespace Buf

variable {n : ℕ}

/-- Store `new` from index `off` on. -/
def put (b : Buf n) (off : ℕ) (new : List UInt8) : Option (Buf n) :=
  if h : off + new.length ≤ n then
    some ⟨b.bytes.take off ++ (new ++ b.bytes.drop (off + new.length)), by
      have hb := b.length_eq
      simp only [List.length_append, List.length_take, List.length_drop]
      omega⟩
  else none

/-- `strncpy`: what is left of `count` behind the string is filled with NULs. -/
def strncpy (b : Buf n) (s : CString) (count : ℕ) : Option (Buf n) :=
  b.put 0 (s.bytes.take count ++ List.replicate (count - s.strlen) 0)

/-- A store behind what the array starts with, as long as it fits, lengthens what it starts with. -/
theorem exists_put {b : Buf n} {t : List UInt8} (off : ℕ) (new : List UInt8) (ht : t <+: b.bytes)
    (hoff : off = t.length) (hfit : off + new.length ≤ n) :
    ∃ b', b.put off new = some b' ∧ t ++ new <+: b'.bytes := by
  have htake : b.bytes.take off = t := by
    rw [hoff]
    exact (List.prefix_iff_eq_take.mp ht).symm
  refine ⟨_, dif_pos hfit, b.bytes.drop (off + new.length), ?_⟩
  show _ = b.bytes.take off ++ (new ++ _)
  rw [htake, List.append_assoc]

/-- An array that starts with a string and its NUL is read as that string. -/
theorem toCString_of_prefix {b : Buf n} {s : CString} (h : s.bytes ++ [0] <+: b.bytes) :
    b.toCString = s := by
  obtain ⟨r, hr⟩ := h
  have hall : ∀ c ∈ s.bytes, decide (c ≠ 0) = true := fun c hc => decide_eq_true (s.noNul c hc)
  ext1
  show b.cStr = s.bytes
  rw [cStr, ← hr, List.append_assoc, List.takeWhile_append_of_pos hall, List.singleton_append,
    List.takeWhile_cons_of_neg (by simp), List.append_nil]

/-- A string copied with `strncpy` and ended with a NUL at the end of an array that is larger. -/
theorem exists_strncpy_put {b : Buf n} {s : CString} (h : s.strlen < n) :
    ∃ b₁ b₂, b.strncpy s (n - 1) = some b₁ ∧ b₁.put (n - 1) [0] = some b₂ ∧ b₂.toCString = s := by
  have hs : s.bytes.length < n := h
  obtain ⟨b₁, hput₁, hpre₁⟩ := exists_put (b := b) 0
    (s.bytes.take (n - 1) ++ List.replicate (n - 1 - s.strlen) 0)
    List.nil_prefix rfl (by
      rw [List.length_append, List.length_take, List.length_replicate, CString.strlen]
      omega)
  rw [List.nil_append, List.take_of_length_le (by omega)] at hpre₁
  obtain ⟨b₂, hput₂, hpre₂⟩ := exists_put (n - 1) [0] hpre₁
    (by
      rw [List.length_append, List.length_replicate, CString.strlen]
      omega)
    (by
      rw [List.length_singleton]
      omega)
  refine ⟨b₁, b₂, hput₁, hput₂, toCString_of_prefix ?_⟩
  have hzeros : [0] <+: List.replicate (n - 1 - s.strlen) (0 : UInt8) ++ [0] := by
    rw [← List.replicate_succ', List.replicate_succ]
    exact ⟨_, rfl⟩
  refine List.IsPrefix.trans ?_ hpre₂
  rw [List.append_assoc]
  exact (List.prefix_append_right_inj _).mpr hzeros

end Buf

end Foundations
