import Mathlib.Data.List.Basic
import Mathlib.Data.Nat.Notation
import Mathlib.Tactic.Ring
import Mathlib.Tactic.NormNum

/-!
# Byte strings

`slice` is what a read of `len` bytes at `off` sees, cut short at the end of the store. `overlay`
is what such a read leaves in a buffer that was already holding something: the new bytes in front,
the old ones behind. `Buf n` is a C array of `n` bytes, with its length carried along, and `cStr` is
its reading as a NUL-terminated string.
-/

namespace Foundations

/-! ## Slices -/

section Slice

variable {α : Type*}

/-- The at most `len` elements of `l` from position `off` on. -/
def slice (l : List α) (off len : ℕ) : List α := (l.drop off).take len

theorem length_slice (l : List α) (off len : ℕ) :
    (slice l off len).length = min len (l.length - off) := by
  simp [slice]

/-- A slice that lies inside the list has the length asked for. -/
theorem length_slice_of_le {l : List α} {off len : ℕ} (h : off + len ≤ l.length) :
    (slice l off len).length = len := by
  rw [length_slice]
  omega

/-- A slice from the end of the list on is empty. -/
theorem slice_of_length_le {l : List α} {off : ℕ} (len : ℕ) (h : l.length ≤ off) :
    slice l off len = [] := by
  simp [slice, List.drop_eq_nil_of_le h]

theorem getElem?_slice (l : List α) (off len i : ℕ) :
    (slice l off len)[i]? = if i < len then l[off + i]? else none := by
  simp only [slice, List.getElem?_take, List.getElem?_drop]

/-- Reading `p` back from the front of what follows position `off`. -/
theorem slice_of_drop_eq {l p q : List α} {off len : ℕ} (h : l.drop off = p ++ q)
    (hlen : len = p.length) : slice l off len = p := by
  rw [slice, h, hlen, List.take_left]

/-- What follows position `off + p.length`, once `p` has been passed. -/
theorem drop_add_of_drop_eq {l p q : List α} {off len : ℕ} (h : l.drop off = p ++ q)
    (hlen : len = p.length) : l.drop (off + len) = q := by
  rw [← List.drop_drop, h, hlen, List.drop_left]

/-- What is found at a position lies inside the list. -/
theorem add_length_le_of_drop_eq {l p q : List α} {off : ℕ} (h : l.drop off = p ++ q)
    (hp : 0 < p.length) : off + p.length ≤ l.length := by
  have hlen := congrArg List.length h
  rw [List.length_drop, List.length_append] at hlen
  omega

/-- What follows a position splits into the slice there and what follows the slice. -/
theorem drop_eq_slice_append (l : List α) (off len : ℕ) :
    l.drop off = slice l off len ++ l.drop (off + len) := by
  rw [slice, ← List.drop_drop, List.take_append_drop]

/-- Two lists hold the same elements at the positions from `lo` up to but not including `hi`. -/
def AgreeOn (l l' : List α) (lo hi : ℕ) : Prop :=
  ∀ i, lo ≤ i → i < hi → l[i]? = l'[i]?

/-- Lists that agree on a region have equal slices there. -/
theorem AgreeOn.slice_eq {l l' : List α} {lo hi off len : ℕ} (h : AgreeOn l l' lo hi)
    (hlo : lo ≤ off) (hhi : off + len ≤ hi) : slice l off len = slice l' off len := by
  apply List.ext_getElem?
  intro i
  rw [getElem?_slice, getElem?_slice]
  split
  · exact h _ (by omega) (by omega)
  · rfl

/-- Lists with a common front agree on it. -/
theorem agreeOn_append {p q q' : List α} {lo hi : ℕ} (h : hi ≤ p.length) :
    AgreeOn (p ++ q) (p ++ q') lo hi := by
  intro i _ hi'
  rw [List.getElem?_append_left (by omega), List.getElem?_append_left (by omega)]

/-- Equal lists are split alike by elements that the front of the other one lacks. -/
theorem append_cons_inj {p p' q q' : List α} {c d : α} (hd : d ∉ p) (hc : c ∉ p')
    (h : p ++ c :: q = p' ++ d :: q') : p = p' ∧ c = d ∧ q = q' := by
  induction p generalizing p' with
  | nil =>
    rcases p' with _ | ⟨x, p'⟩
    · exact ⟨rfl, List.cons.inj h⟩
    · have hx : c = x := (List.cons.inj h).1
      exact absurd (hx ▸ List.mem_cons_self) hc
  | cons x p ih =>
    rw [List.mem_cons, not_or] at hd
    rcases p' with _ | ⟨x', p'⟩
    · exact absurd (List.cons.inj h).1.symm hd.1
    · rw [List.mem_cons, not_or] at hc
      obtain ⟨hx, htail⟩ := List.cons.inj h
      obtain ⟨hp, hcd, hq⟩ := ih hd.2 hc.2 htail
      exact ⟨by rw [hx, hp], hcd, hq⟩

end Slice

/-! ## Buffers -/

section Buffer

variable {α : Type*}

/-- The contents of a buffer that held `old` after `new` has been stored at its front. -/
def overlay (old new : List α) : List α := (new ++ old.drop new.length).take old.length

@[simp] theorem length_overlay (old new : List α) : (overlay old new).length = old.length := by
  simp only [overlay, List.length_take, List.length_append, List.length_drop]
  omega

@[simp] theorem overlay_nil (old : List α) : overlay old [] = old := by simp [overlay]

/-- A read that fills the buffer leaves nothing of what was there. -/
theorem overlay_of_length_eq {old new : List α} (h : new.length = old.length) :
    overlay old new = new := by
  rw [overlay, List.drop_of_length_le h.ge, List.append_nil, List.take_of_length_le h.le]

/-- A read that fits leaves the old contents behind the new bytes. -/
theorem overlay_of_length_le {old new : List α} (h : new.length ≤ old.length) :
    overlay old new = new ++ old.drop new.length := by
  rw [overlay, List.take_of_length_le]
  simp only [List.length_append, List.length_drop]
  omega

end Buffer

/-- A C array of `n` bytes. -/
structure Buf (n : ℕ) where
  bytes : List UInt8
  length_eq : bytes.length = n
deriving DecidableEq

namespace Buf

variable {n : ℕ}

/-- The array filled with zero bytes. -/
def zero (n : ℕ) : Buf n := ⟨List.replicate n 0, List.length_replicate⟩

/-- Store `new` at the front of the array; what lies beyond the array is cut off. -/
def write (b : Buf n) (new : List UInt8) : Buf n :=
  ⟨overlay b.bytes new, by rw [length_overlay, b.length_eq]⟩

/-- Store one byte at index `i`. -/
def set (b : Buf n) (i : ℕ) (c : UInt8) : Buf n :=
  ⟨b.bytes.set i c, by rw [List.length_set, b.length_eq]⟩

/-- The array read as a C string: its bytes up to the first NUL. -/
def cStr (b : Buf n) : List UInt8 := b.bytes.takeWhile (· ≠ 0)

/-- The first byte of the array. -/
def first (b : Buf n) : UInt8 := b.bytes.headD 0

@[ext] theorem ext {b b' : Buf n} (h : b.bytes = b'.bytes) : b = b' := by
  cases b; cases b'; cases h; rfl

@[simp] theorem bytes_write (b : Buf n) (new : List UInt8) :
    (b.write new).bytes = overlay b.bytes new := rfl

@[simp] theorem bytes_set (b : Buf n) (i : ℕ) (c : UInt8) :
    (b.set i c).bytes = b.bytes.set i c := rfl

@[simp] theorem write_nil (b : Buf n) : b.write [] = b := by
  ext1
  exact overlay_nil _

/-- A read that fills the array leaves exactly the bytes read. -/
theorem bytes_write_of_length_eq {b : Buf n} {new : List UInt8} (h : new.length = n) :
    (b.write new).bytes = new :=
  overlay_of_length_eq (h.trans b.length_eq.symm)

/-- The C string is empty exactly when the first byte is NUL. -/
theorem cStr_eq_nil_iff (b : Buf n) : b.cStr = [] ↔ b.first = 0 := by
  obtain ⟨bytes, h⟩ := b
  cases bytes with
  | nil => simp [cStr, first]
  | cons c cs => simp [cStr, first, List.takeWhile_cons]

private theorem set_append_length (l r : List UInt8) (c d : UInt8) :
    (l ++ d :: r).set l.length c = l ++ c :: r := by
  simp [List.set_append_right]

/-- Storing a string that is shorter than the array and a NUL behind it. -/
theorem cStr_write_set {b : Buf n} {new : List UInt8} (h : new.length < n) :
    ((b.write new).set new.length 0).cStr = new.takeWhile (· ≠ 0) := by
  have hb := b.length_eq
  obtain ⟨d, r, hdr⟩ : ∃ d r, b.bytes.drop new.length = d :: r := by
    cases hd : b.bytes.drop new.length with
    | nil =>
      have := congrArg List.length hd
      simp only [List.length_drop, List.length_nil] at this
      omega
    | cons d r => exact ⟨d, r, rfl⟩
  rw [cStr, bytes_set, bytes_write, overlay_of_length_le (by omega), hdr, set_append_length,
    List.takeWhile_append]
  split
  · rename_i hall
    rw [List.takeWhile_cons_of_neg (by simp), List.append_nil,
      (List.takeWhile_prefix _).eq_of_length hall]
  · rfl

/-- Storing a NUL somewhere in an array that starts with one changes nothing a C reader sees. -/
theorem first_set_zero {b : Buf n} (i : ℕ) (h : b.first = 0) : (b.set i 0).first = 0 := by
  obtain ⟨bytes, hl⟩ := b
  cases bytes with
  | nil => simp [first, set]
  | cons c cs =>
    cases i with
    | zero => rfl
    | succ i => exact h

theorem first_set_zero_zero (b : Buf n) : (b.set 0 0).first = 0 := by
  obtain ⟨bytes, hl⟩ := b
  cases bytes with
  | nil => rfl
  | cons c cs => rfl

/-- A byte stored elsewhere leaves the first one alone. -/
theorem first_set_of_ne {b : Buf n} {i : ℕ} {c : UInt8} (h : i ≠ 0) :
    (b.set i c).first = b.first := by
  obtain ⟨bytes, hl⟩ := b
  cases bytes with
  | nil => rfl
  | cons d ds =>
    cases i with
    | zero => exact absurd rfl h
    | succ i => rfl

theorem first_write_cons {b : Buf n} {c : UInt8} {cs : List UInt8} (h : 0 < n) :
    (b.write (c :: cs)).first = c := by
  obtain ⟨bytes, hl⟩ := b
  cases bytes with
  | nil => exact absurd (hl.symm ▸ h) (lt_irrefl 0)
  | cons d ds => rfl

end Buf

/-! ## Numbers stored as bytes -/

/-- The number stored in `bs`, least significant byte first. -/
def ofLE : List UInt8 → ℕ
  | [] => 0
  | b :: bs => b.toNat + 256 * ofLE bs

/-- The `w` bytes of `n`, least significant first. -/
def toLE : ℕ → ℕ → List UInt8
  | 0, _ => []
  | w + 1, n => UInt8.ofNat n :: toLE w (n / 256)

/-- The number stored in `bs`, most significant byte first. -/
def ofBE (bs : List UInt8) : ℕ := bs.foldl (fun acc b => 256 * acc + b.toNat) 0

theorem ofBE_eq_zero_iff (bs : List UInt8) : ofBE bs = 0 ↔ ∀ b ∈ bs, b = 0 := by
  have hfold : ∀ acc, bs.foldl (fun acc b => 256 * acc + b.toNat) acc = 0 ↔
      acc = 0 ∧ ∀ b ∈ bs, b = 0 := by
    induction bs with
    | nil => simp
    | cons b bs ih =>
      intro acc
      have hb : b.toNat = 0 ↔ b = 0 := by
        rw [← UInt8.toNat_inj]
        rfl
      rw [List.foldl_cons, ih, List.forall_mem_cons, ← hb, ← and_assoc]
      exact and_congr_left fun _ => by omega
  simpa [ofBE] using hfold 0

@[simp] theorem length_toLE (w n : ℕ) : (toLE w n).length = w := by
  induction w generalizing n with
  | zero => rfl
  | succ w ih => simp only [toLE, List.length_cons, ih]

theorem ofLE_toLE {w n : ℕ} (h : n < 256 ^ w) : ofLE (toLE w n) = n := by
  induction w generalizing n with
  | zero =>
    rw [pow_zero] at h
    simp only [toLE, ofLE]
    omega
  | succ w ih =>
    have hdiv : n / 256 < 256 ^ w := by
      rw [pow_succ] at h
      omega
    rw [toLE, ofLE, ih hdiv, UInt8.toNat_ofNat']
    omega

theorem ofLE_lt (bs : List UInt8) : ofLE bs < 256 ^ bs.length := by
  induction bs with
  | nil => simp [ofLE]
  | cons b bs ih =>
    have hb := b.toNat_lt
    rw [ofLE, List.length_cons, pow_succ]
    omega

theorem ofLE_append (bs cs : List UInt8) :
    ofLE (bs ++ cs) = ofLE bs + 256 ^ bs.length * ofLE cs := by
  induction bs with
  | nil => simp [ofLE]
  | cons b bs ih =>
    rw [List.cons_append, ofLE, ofLE, ih, List.length_cons, pow_succ]
    ring

theorem toLE_ofLE (bs : List UInt8) : toLE bs.length (ofLE bs) = bs := by
  induction bs with
  | nil => rfl
  | cons b bs ih =>
    have hb := b.toNat_lt
    rw [List.length_cons, toLE, ofLE]
    congr 1
    · apply UInt8.toNat_inj.mp
      rw [UInt8.toNat_ofNat']
      omega
    · rw [show (b.toNat + 256 * ofLE bs) / 256 = ofLE bs by omega, ih]

end Foundations
