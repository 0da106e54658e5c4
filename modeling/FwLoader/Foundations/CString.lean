import FwLoader.Foundations.Bytes
import Mathlib.Data.List.TakeWhile

/-!
# C strings

A `CString` is what stands in front of the NUL. `strcmp` compares two of them and `Buf.snprintf`
stores one into an array, cut short where the array ends; `toCString_snprintf` says what is read
back.
-/

namespace Foundations

/-- The bytes of a C string in front of its NUL. -/
structure CString where
  bytes : List UInt8
  noNul : ∀ c ∈ bytes, c ≠ 0
deriving DecidableEq

namespace CString

@[ext] theorem ext {s t : CString} (h : s.bytes = t.bytes) : s = t := by
  cases s; cases t; cases h; rfl

/-- `strlen` -/
def strlen (s : CString) : ℕ := s.bytes.length

/-- What `"%s%s"` makes of two strings. -/
instance : Append CString where
  append s t := ⟨s.bytes ++ t.bytes, by
    intro c hc
    rcases List.mem_append.mp hc with hc | hc
    · exact s.noNul c hc
    · exact t.noNul c hc⟩

/-- The first `n` bytes at most. -/
def take (s : CString) (n : ℕ) : CString :=
  ⟨s.bytes.take n, fun c hc => s.noNul c (List.mem_of_mem_take hc)⟩

/-- The string from position `n` on. -/
def drop (s : CString) (n : ℕ) : CString :=
  ⟨s.bytes.drop n, fun c hc => s.noNul c (List.mem_of_mem_drop hc)⟩

theorem take_of_strlen_le {s : CString} {n : ℕ} (h : s.strlen ≤ n) : s.take n = s := by
  ext1
  exact List.take_of_length_le h

end CString

/-- The difference of the first bytes that differ, up to and including the NULs. -/
def byteDiff : List UInt8 → List UInt8 → ℤ
  | [], [] => 0
  | c :: _, [] => c.toNat
  | [], d :: _ => -d.toNat
  | c :: cs, d :: ds => if c = d then byteDiff cs ds else (c.toNat : ℤ) - d.toNat

/-- `strcmp` -/
def strcmp (s t : CString) : ℤ := byteDiff s.bytes t.bytes

private theorem toNat_ne_zero {c : UInt8} (h : c ≠ 0) : (c.toNat : ℤ) ≠ 0 := by
  intro hc
  exact h (UInt8.toNat_inj.mp (Int.ofNat_eq_zero.mp hc))

/-- Because of the NULs, two strings of which one continues the other are told apart as well. -/
theorem byteDiff_eq_zero_iff {cs ds : List UInt8} (hcs : ∀ c ∈ cs, c ≠ 0) (hds : ∀ d ∈ ds, d ≠ 0) :
    byteDiff cs ds = 0 ↔ cs = ds := by
  induction cs generalizing ds with
  | nil =>
    rcases ds with _ | ⟨d, ds⟩
    · simp [byteDiff]
    · have hd := toNat_ne_zero (hds d List.mem_cons_self)
      simp only [byteDiff, reduceCtorEq, iff_false]
      omega
  | cons c cs ih =>
    rcases ds with _ | ⟨d, ds⟩
    · have hc := toNat_ne_zero (hcs c List.mem_cons_self)
      simp only [byteDiff, reduceCtorEq, iff_false]
      exact hc
    · rw [List.forall_mem_cons] at hcs hds
      rw [byteDiff]
      split
      · rename_i heq
        rw [ih hcs.2 hds.2, heq, List.cons.injEq]
        exact (and_iff_right rfl).symm
      · rename_i hne
        have hne' : c.toNat ≠ d.toNat := fun h => hne (UInt8.toNat_inj.mp h)
        constructor
        · intro h
          omega
        · intro h
          exact absurd (List.cons.inj h).1 hne

/-- `strcmp` finds no difference exactly between equal strings. -/
theorem strcmp_eq_zero_iff {s t : CString} : strcmp s t = 0 ↔ s = t := by
  rw [strcmp, byteDiff_eq_zero_iff s.noNul t.noNul]
  exact ⟨CString.ext, congrArg CString.bytes⟩

/-- What ends the front of a list that is free of NULs is a NUL. -/
theorem getElem?_length_takeWhile {l : List UInt8} (h : (l.takeWhile (· ≠ 0)).length < l.length) :
    l[(l.takeWhile (· ≠ 0)).length]? = some 0 := by
  induction l with
  | nil => exact absurd h (lt_irrefl 0)
  | cons c l ih =>
    rw [List.takeWhile_cons] at h ⊢
    split at h
    · rename_i hc
      rw [if_pos hc, List.length_cons, List.getElem?_cons_succ]
      exact ih (Nat.lt_of_succ_lt_succ h)
    · rename_i hc
      have hzero : c = 0 := by simpa using hc
      rw [if_neg hc, List.length_nil, List.getElem?_cons_zero, hzero]

namespace Buf

variable {n : ℕ}

/-- The array read as a C string. -/
def toCString (b : Buf n) : CString :=
  ⟨b.cStr, fun c hc => by simpa using List.mem_takeWhile_imp hc⟩

/-- A string that is shorter than the array is followed by its NUL. -/
theorem getElem?_strlen {b : Buf n} (h : b.toCString.strlen < n) :
    b.bytes[b.toCString.strlen]? = some 0 :=
  getElem?_length_takeWhile (h.trans_eq b.length_eq.symm)

/-- `snprintf` into the whole array, of which `s` is the text without a limit. -/
def snprintf (b : Buf n) (s : CString) : Buf n :=
  let text := s.bytes.take (n - 1)
  (b.write text).set text.length 0

/-- The array holds as much of the text as fits in front of the NUL. -/
theorem toCString_snprintf (b : Buf n) (s : CString) (hn : 0 < n) :
    (b.snprintf s).toCString = s.take (n - 1) := by
  have hlen : (s.bytes.take (n - 1)).length < n := by
    rw [List.length_take]
    omega
  ext1
  show ((b.write (s.bytes.take (n - 1))).set (s.bytes.take (n - 1)).length 0).cStr = _
  rw [cStr_write_set hlen]
  apply List.takeWhile_eq_self_iff.mpr
  intro c hc
  simpa using (s.take (n - 1)).noNul c hc

/-- A text that is shorter than the array is stored in full. -/
theorem toCString_snprintf_of_lt {b : Buf n} {s : CString} (h : s.strlen < n) :
    (b.snprintf s).toCString = s := by
  rw [toCString_snprintf b s (by omega), CString.take_of_strlen_le (by omega)]

/-- A text that just fits fills the array. -/
theorem bytes_snprintf_of_strlen {b : Buf n} {s : CString} (h : s.strlen + 1 = n) :
    (b.snprintf s).bytes = s.bytes ++ [0] := by
  have htake : s.bytes.take (n - 1) = s.bytes := by
    apply List.take_of_length_le
    show s.strlen ≤ n - 1
    omega
  have hlen : s.bytes.length + 1 = b.bytes.length := h.trans b.length_eq.symm
  obtain ⟨c, hc⟩ : ∃ c, b.bytes.drop s.bytes.length = [c] := by
    rw [← List.length_eq_one_iff, List.length_drop]
    omega
  rw [snprintf, htake, bytes_set, bytes_write, overlay_of_length_le (by omega), hc,
    List.set_append_right _ _ (Nat.le_refl _), Nat.sub_self, List.set_cons_zero]

end Buf

end Foundations
