import FwLoader.Image.Layout

/-!
# The hardware revision of a list of TLVs

What the two scans are for, without offsets, buffers or reads: a list of TLVs is gone through until
both halves of the revision have been found or a revision TLV is refused. A revision number of 0
and an empty name stand for "not found yet", as they do in the code.

`scanTlvs_accepted_iff` says what this search comes to on a list that has at most one TLV of each
type.
-/

namespace FwLoader.Image

open Foundations

/-- What has been found so far: the revision number, and the name as a C string. -/
structure Found where
  num : ℕ
  name : List UInt8
deriving DecidableEq

namespace Found

/-- Nothing has been found. -/
def none : Found := ⟨0, []⟩

/-- Both halves have been found. -/
def Complete (f : Found) : Prop := f.num ≠ 0 ∧ f.name ≠ []

instance (f : Found) : Decidable f.Complete := inferInstanceAs (Decidable (_ ∧ _))

end Found

/-- How far a search has come: both halves found, a revision TLV refused, or still going. -/
inductive Verdict
  | accepted (f : Found)
  | refused
  | undecided (f : Found)
deriving DecidableEq

/-- Go on with the search where it has not ended. -/
def Verdict.andThen (k : Found → Verdict) : Verdict → Verdict
  | .accepted f => .accepted f
  | .refused => .refused
  | .undecided f => k f

/-- The search ends when both halves have been found. -/
def Found.verdict (f : Found) : Verdict := if f.Complete then .accepted f else .undecided f

section

variable (T : RuuviTlvTypes)

/-- A TLV of one of the two revision types. -/
def IsRevisionType (type : UInt16) : Prop := T.hwRevId = type ∨ T.hwRevName = type

/-- The value of a TLV of this type and length would be taken: it is a revision TLV of a valid
length, and this half of the revision has not been found yet. -/
def Takes (f : Found) (type : UInt16) (len : ℕ) : Prop :=
  (T.hwRevId = type ∧ len = 4 ∧ f.num = 0) ∨
    (T.hwRevName = type ∧ len ≤ fwInfoHwRevNameMaxLen ∧ f.name = [])

instance (type : UInt16) : Decidable (IsRevisionType T type) :=
  inferInstanceAs (Decidable (_ ∨ _))

instance (f : Found) (type : UInt16) (len : ℕ) : Decidable (Takes T f type len) :=
  inferInstanceAs (Decidable (_ ∨ _))

/-- Take the value of a revision TLV. -/
def Found.take (f : Found) (type : UInt16) (value : List UInt8) : Found :=
  if T.hwRevId = type then { f with num := ofBE value }
  else { f with name := value.takeWhile (· ≠ 0) }

/-- One TLV of the list. -/
def tlvStep (f : Found) (t : Tlv) : Verdict :=
  if Takes T f t.type t.value.length then (f.take T t.type t.value).verdict
  else if IsRevisionType T t.type then .refused
  else f.verdict

/-- The search through a list of TLVs. -/
def scanTlvs : Found → List Tlv → Verdict
  | f, [] => .undecided f
  | f, t :: ts => (tlvStep T f t).andThen fun f' => scanTlvs f' ts

variable {T} {f g : Found} {t : Tlv} {ts : List Tlv}

theorem scanTlvs_cons_undecided (h : tlvStep T f t = .undecided g) :
    scanTlvs T f (t :: ts) = scanTlvs T g ts := by
  rw [scanTlvs, h, Verdict.andThen]

theorem scanTlvs_cons_refused (h : tlvStep T f t = .refused) :
    scanTlvs T f (t :: ts) = .refused := by
  rw [scanTlvs, h, Verdict.andThen]

theorem scanTlvs_cons_accepted (h : tlvStep T f t = .accepted g) :
    scanTlvs T f (t :: ts) = .accepted g := by
  rw [scanTlvs, h, Verdict.andThen]

/-- A search that comes to no end has passed its first TLV. -/
theorem scanTlvs_cons_eq_undecided (h : scanTlvs T f (t :: ts) = .undecided g) :
    ∃ f', tlvStep T f t = .undecided f' ∧ scanTlvs T f' ts = .undecided g := by
  rw [scanTlvs] at h
  cases hstep : tlvStep T f t with
  | accepted f' => rw [hstep] at h; cases h
  | refused => rw [hstep] at h; cases h
  | undecided f' => rw [hstep] at h; exact ⟨f', rfl, h⟩

/-- A search goes on with what follows unless it has come to an end. -/
theorem scanTlvs_append_eq (f : Found) (us ts : List Tlv) :
    scanTlvs T f (us ++ ts) = (scanTlvs T f us).andThen fun g => scanTlvs T g ts := by
  induction us generalizing f with
  | nil => rfl
  | cons u us ih =>
    rw [List.cons_append, scanTlvs, scanTlvs]
    cases tlvStep T f u with
    | accepted g => rfl
    | refused => rfl
    | undecided g => exact ih g

/-- A search that comes to no end goes on with what follows. -/
theorem scanTlvs_append {us : List Tlv} (h : scanTlvs T f us = .undecided g) :
    scanTlvs T f (us ++ ts) = scanTlvs T g ts := by
  rw [scanTlvs_append_eq, h, Verdict.andThen]

/-- The search goes on only with what is not complete yet. -/
theorem Found.not_complete_of_verdict (h : f.verdict = .undecided g) : g = f ∧ ¬ g.Complete := by
  rw [Found.verdict] at h
  split at h
  · cases h
  · rename_i hc
    cases h
    exact ⟨rfl, hc⟩

theorem Found.verdict_of_not_complete (h : ¬ f.Complete) : f.verdict = .undecided f := if_neg h

theorem Found.verdict_of_complete (h : f.Complete) : f.verdict = .accepted f := if_pos h

/-- After a step that does not end the search, the two halves are not both there. -/
theorem not_complete_of_tlvStep (h : tlvStep T f t = .undecided g) : ¬ g.Complete := by
  rw [tlvStep] at h
  split at h
  · exact (Found.not_complete_of_verdict h).2
  · split at h
    · cases h
    · exact (Found.not_complete_of_verdict h).2

/-- What has been found after a search without end is not complete. -/
theorem not_complete_of_scanTlvs (hf : ¬ f.Complete) (h : scanTlvs T f ts = .undecided g) :
    ¬ g.Complete := by
  induction ts generalizing f with
  | nil =>
    rw [scanTlvs, Verdict.undecided.injEq] at h
    rwa [← h]
  | cons t ts ih =>
    obtain ⟨f', hstep, hscan⟩ := scanTlvs_cons_eq_undecided h
    exact ih (not_complete_of_tlvStep hstep) hscan

/-- A search that comes to an end does so at one TLV of the list. -/
theorem scanTlvs_split (f : Found) (ts : List Tlv) (h : ∀ g, scanTlvs T f ts ≠ .undecided g) :
    ∃ us t vs g, ts = us ++ t :: vs ∧ scanTlvs T f us = .undecided g ∧
      tlvStep T g t = scanTlvs T f ts := by
  induction ts generalizing f with
  | nil => exact absurd rfl (h f)
  | cons u ts ih =>
    cases hstep : tlvStep T f u with
    | accepted g =>
      exact ⟨[], u, ts, f, rfl, rfl, by rw [hstep, scanTlvs_cons_accepted hstep]⟩
    | refused => exact ⟨[], u, ts, f, rfl, rfl, by rw [hstep, scanTlvs_cons_refused hstep]⟩
    | undecided f' =>
      rw [scanTlvs_cons_undecided hstep] at h ⊢
      obtain ⟨us, t, vs, g, rfl, hus, ht⟩ := ih f' h
      exact ⟨u :: us, t, vs, g, rfl, (scanTlvs_cons_undecided hstep).trans hus, ht⟩

end

/-! ## The search on a list with at most one TLV of each type -/

section

variable (T : RuuviTlvTypes)

/-- A usable ID TLV: four bytes that are not all zero. -/
def IsHwRevId (t : Tlv) : Prop :=
  t.type = T.hwRevId ∧ t.value.length = 4 ∧ ofBE t.value ≠ 0

/-- A usable name TLV: 1 to 15 bytes, the first one not NUL. -/
def IsHwRevName (t : Tlv) : Prop :=
  t.type = T.hwRevName ∧ 1 ≤ t.value.length ∧ t.value.length ≤ fwInfoHwRevNameMaxLen ∧
    t.value.head? ≠ some 0

/-- No two TLVs of this type. -/
def AtMostOne (type : UInt16) (ts : List Tlv) : Prop := ts.countP (·.type = type) ≤ 1

instance (t : Tlv) : Decidable (IsHwRevId T t) := inferInstanceAs (Decidable (_ ∧ _))

instance (t : Tlv) : Decidable (IsHwRevName T t) := inferInstanceAs (Decidable (_ ∧ _))

instance (type : UInt16) (ts : List Tlv) : Decidable (AtMostOne type ts) :=
  inferInstanceAs (Decidable (_ ≤ _))

end

section

variable {T : RuuviTlvTypes} {f g : Found} {t : Tlv} {ts : List Tlv}

/-- In a list with at most one TLV of a type, the others differ from the first of that type. -/
private theorem AtMostOne.tail_ne {type : UInt16} (h : AtMostOne type (t :: ts))
    (ht : t.type = type) : ∀ u ∈ ts, u.type ≠ type := by
  rw [AtMostOne, List.countP_cons_of_pos (by simpa using ht)] at h
  have hz : ts.countP (·.type = type) = 0 := by omega
  simpa using List.countP_eq_zero.mp hz

private theorem AtMostOne.tail {type : UInt16} (h : AtMostOne type (t :: ts)) :
    AtMostOne type ts :=
  (List.Sublist.countP_le (List.sublist_cons_self t ts)).trans h

/-- The name taken from a value is empty exactly when the value is empty or starts with a NUL. -/
theorem takeWhile_ne_nil_iff (bs : List UInt8) :
    bs.takeWhile (· ≠ 0) ≠ [] ↔ 1 ≤ bs.length ∧ bs.head? ≠ some 0 := by
  cases bs with
  | nil => simp
  | cons b bs => by_cases hb : b = 0 <;> simp [hb]

variable (T) in
/-- The revision number `n` is already there or comes from a usable ID TLV of the list. -/
def FoundNum (f : Found) (ts : List Tlv) (n : ℕ) : Prop :=
  (f.num ≠ 0 ∧ n = f.num) ∨ ∃ i ∈ ts, IsHwRevId T i ∧ n = ofBE i.value

variable (T) in
/-- The name `s` is already there or comes from a usable name TLV of the list. -/
def FoundName (f : Found) (ts : List Tlv) (s : List UInt8) : Prop :=
  (f.name ≠ [] ∧ s = f.name) ∨
    ∃ m ∈ ts, IsHwRevName T m ∧ s = m.value.takeWhile (· ≠ 0)

private theorem foundNum_of_ne {n : ℕ} (h : ∀ u ∈ ts, u.type ≠ T.hwRevId) :
    FoundNum T f ts n ↔ f.num ≠ 0 ∧ n = f.num := by
  refine ⟨?_, Or.inl⟩
  rintro (hf | ⟨i, hi, hid, -⟩)
  · exact hf
  · exact absurd hid.1 (h i hi)

private theorem foundName_of_ne {s : List UInt8} (h : ∀ u ∈ ts, u.type ≠ T.hwRevName) :
    FoundName T f ts s ↔ f.name ≠ [] ∧ s = f.name := by
  refine ⟨?_, Or.inl⟩
  rintro (hf | ⟨m, hm, hname, -⟩)
  · exact hf
  · exact absurd hname.1 (h m hm)

private theorem foundNum_cons {n : ℕ} (h : t.type ≠ T.hwRevId) :
    FoundNum T f (t :: ts) n ↔ FoundNum T f ts n := by
  have ht : ¬ IsHwRevId T t := fun hid => h hid.1
  simp [FoundNum, ht]

private theorem foundName_cons {s : List UInt8} (h : t.type ≠ T.hwRevName) :
    FoundName T f (t :: ts) s ↔ FoundName T f ts s := by
  have ht : ¬ IsHwRevName T t := fun hname => h hname.1
  simp [FoundName, ht]

/-- An ID TLV in front of a list without one. -/
private theorem foundNum_cons_id {n : ℕ} (h : ∀ u ∈ ts, u.type ≠ T.hwRevId) (hf : f.num = 0) :
    FoundNum T f (t :: ts) n ↔ IsHwRevId T t ∧ n = ofBE t.value := by
  constructor
  · rintro (⟨hne, -⟩ | ⟨i, hi, hid, hn⟩)
    · exact absurd hf hne
    · rcases List.mem_cons.mp hi with rfl | hi
      · exact ⟨hid, hn⟩
      · exact absurd hid.1 (h i hi)
  · exact fun ⟨hid, hn⟩ => Or.inr ⟨t, by simp, hid, hn⟩

/-- A name TLV in front of a list without one. -/
private theorem foundName_cons_name {s : List UInt8} (h : ∀ u ∈ ts, u.type ≠ T.hwRevName)
    (hf : f.name = []) :
    FoundName T f (t :: ts) s ↔ IsHwRevName T t ∧ s = t.value.takeWhile (· ≠ 0) := by
  constructor
  · rintro (⟨hne, -⟩ | ⟨m, hm, hname, hs⟩)
    · exact absurd hf hne
    · rcases List.mem_cons.mp hm with rfl | hm
      · exact ⟨hname, hs⟩
      · exact absurd hname.1 (h m hm)
  · exact fun ⟨hname, hs⟩ => Or.inr ⟨t, by simp, hname, hs⟩

variable (T) in
/-- The search from `f` on, the test for both halves first. -/
private def resume (f : Found) (ts : List Tlv) : Verdict :=
  f.verdict.andThen fun f' => scanTlvs T f' ts

private theorem resume_of_complete (h : f.Complete) : resume T f ts = .accepted f := by
  rw [resume, Found.verdict_of_complete h, Verdict.andThen]

private theorem resume_of_not_complete (h : ¬ f.Complete) : resume T f ts = scanTlvs T f ts := by
  rw [resume, Found.verdict_of_not_complete h, Verdict.andThen]

private theorem scanTlvs_cons :
    scanTlvs T f (t :: ts) =
      if Takes T f t.type t.value.length then resume T (f.take T t.type t.value) ts
      else if IsRevisionType T t.type then .refused
      else resume T f ts := by
  rw [scanTlvs, tlvStep]
  split
  · rfl
  · split <;> rfl

/-- Once a half has been found, no TLV of its type follows. -/
private structure Fresh (T : RuuviTlvTypes) (f : Found) (ts : List Tlv) : Prop where
  id : f.num ≠ 0 → ∀ u ∈ ts, u.type ≠ T.hwRevId
  name : f.name ≠ [] → ∀ u ∈ ts, u.type ≠ T.hwRevName

private theorem Fresh.tail (h : Fresh T f (t :: ts)) : Fresh T f ts :=
  ⟨fun hf u hu => h.id hf u (List.mem_cons_of_mem t hu),
   fun hf u hu => h.name hf u (List.mem_cons_of_mem t hu)⟩

/-- The search with both halves already there. -/
private theorem resume_iff_of_complete (hc : f.Complete) (hfresh : Fresh T f ts) :
    resume T f ts = .accepted g ↔ FoundNum T f ts g.num ∧ FoundName T f ts g.name := by
  rw [resume_of_complete hc, foundNum_of_ne (hfresh.id hc.1), foundName_of_ne (hfresh.name hc.2)]
  constructor
  · intro h
    cases h
    exact ⟨⟨hc.1, rfl⟩, hc.2, rfl⟩
  · rintro ⟨⟨-, hnum⟩, -, hname⟩
    cases f; cases g
    cases hnum; cases hname
    rfl

/-- The case of an ID TLV in front. -/
private theorem scanTlvs_cons_id_iff (ht : T.hwRevId = t.type)
    (hnone : ∀ u ∈ ts, u.type ≠ T.hwRevId) (hfresh : Fresh T f (t :: ts))
    (ih : ∀ f', Fresh T f' ts →
      (resume T f' ts = .accepted g ↔ FoundNum T f' ts g.num ∧ FoundName T f' ts g.name)) :
    scanTlvs T f (t :: ts) = .accepted g ↔
      FoundNum T f (t :: ts) g.num ∧ FoundName T f (t :: ts) g.name := by
  have hnn : t.type ≠ T.hwRevName := fun h => T.id_ne_name (ht.trans h)
  have hf : f.num = 0 := by
    by_contra hne
    exact hfresh.id hne t (by simp) ht.symm
  rw [scanTlvs_cons, foundNum_cons_id hnone hf, foundName_cons hnn]
  by_cases hlen : t.value.length = 4
  · have htakes : Takes T f t.type t.value.length := Or.inl ⟨ht, hlen, hf⟩
    have htake : f.take T t.type t.value = ⟨ofBE t.value, f.name⟩ := if_pos ht
    have hname : FoundName T ⟨ofBE t.value, f.name⟩ ts g.name ↔ FoundName T f ts g.name := Iff.rfl
    have hfresh' : Fresh T ⟨ofBE t.value, f.name⟩ ts := ⟨fun _ => hnone, hfresh.tail.name⟩
    rw [if_pos htakes, htake, ih _ hfresh', foundNum_of_ne hnone, hname, IsHwRevId]
    simp [ht, hlen]
  · have htakes : ¬ Takes T f t.type t.value.length := by
      rintro (⟨-, h, -⟩ | ⟨h, -⟩)
      · exact hlen h
      · exact hnn h.symm
    have hrev : IsRevisionType T t.type := Or.inl ht
    rw [if_neg htakes, if_pos hrev]
    exact ⟨fun h => (nomatch h), fun h => absurd h.1.1.2.1 hlen⟩

/-- The case of a name TLV in front. -/
private theorem scanTlvs_cons_name_iff (ht : T.hwRevName = t.type)
    (hnone : ∀ u ∈ ts, u.type ≠ T.hwRevName) (hfresh : Fresh T f (t :: ts))
    (ih : ∀ f', Fresh T f' ts →
      (resume T f' ts = .accepted g ↔ FoundNum T f' ts g.num ∧ FoundName T f' ts g.name)) :
    scanTlvs T f (t :: ts) = .accepted g ↔
      FoundNum T f (t :: ts) g.num ∧ FoundName T f (t :: ts) g.name := by
  have hni : t.type ≠ T.hwRevId := fun h => T.id_ne_name (h.symm.trans ht.symm)
  have hf : f.name = [] := by
    by_contra hne
    exact hfresh.name hne t (by simp) ht.symm
  rw [scanTlvs_cons, foundNum_cons hni, foundName_cons_name hnone hf]
  by_cases hlen : t.value.length ≤ fwInfoHwRevNameMaxLen
  · have htakes : Takes T f t.type t.value.length := Or.inr ⟨ht, hlen, hf⟩
    have htake : f.take T t.type t.value = ⟨f.num, t.value.takeWhile (· ≠ 0)⟩ :=
      if_neg (Ne.symm hni)
    have hnum : FoundNum T ⟨f.num, t.value.takeWhile (· ≠ 0)⟩ ts g.num ↔ FoundNum T f ts g.num :=
      Iff.rfl
    have hfresh' : Fresh T ⟨f.num, t.value.takeWhile (· ≠ 0)⟩ ts :=
      ⟨hfresh.tail.id, fun _ => hnone⟩
    rw [if_pos htakes, htake, ih _ hfresh', foundName_of_ne hnone, hnum, takeWhile_ne_nil_iff,
      IsHwRevName]
    simp [ht, hlen, and_assoc]
  · have htakes : ¬ Takes T f t.type t.value.length := by
      rintro (⟨h, -⟩ | ⟨-, h, -⟩)
      · exact hni h.symm
      · exact hlen h
    have hrev : IsRevisionType T t.type := Or.inr ht
    rw [if_neg htakes, if_pos hrev]
    exact ⟨fun h => (nomatch h), fun h => absurd h.2.1.2.2.1 hlen⟩

/-- The case of a TLV of another type in front. -/
private theorem scanTlvs_cons_other_iff (hni : t.type ≠ T.hwRevId) (hnn : t.type ≠ T.hwRevName)
    (hfresh : Fresh T f (t :: ts))
    (ih : ∀ f', Fresh T f' ts →
      (resume T f' ts = .accepted g ↔ FoundNum T f' ts g.num ∧ FoundName T f' ts g.name)) :
    scanTlvs T f (t :: ts) = .accepted g ↔
      FoundNum T f (t :: ts) g.num ∧ FoundName T f (t :: ts) g.name := by
  have htakes : ¬ Takes T f t.type t.value.length := by
    rintro (⟨h, -⟩ | ⟨h, -⟩)
    · exact hni h.symm
    · exact hnn h.symm
  have hrev : ¬ IsRevisionType T t.type := fun h => h.elim (hni ·.symm) (hnn ·.symm)
  rw [scanTlvs_cons, if_neg htakes, if_neg hrev, ih f hfresh.tail, foundNum_cons hni,
    foundName_cons hnn]

/-- A search accepts exactly what was there before or what usable TLVs of the list hold. The
induction is on the list; the TLV in front is an ID TLV, a name TLV or of another type. -/
private theorem resume_iff (hid : AtMostOne T.hwRevId ts) (hname : AtMostOne T.hwRevName ts)
    (hfresh : Fresh T f ts) :
    resume T f ts = .accepted g ↔ FoundNum T f ts g.num ∧ FoundName T f ts g.name := by
  by_cases hc : f.Complete
  · exact resume_iff_of_complete hc hfresh
  rw [resume_of_not_complete hc]
  induction ts generalizing f with
  | nil =>
    rw [scanTlvs, foundNum_of_ne (by simp), foundName_of_ne (by simp)]
    refine ⟨fun h => (nomatch h), ?_⟩
    rintro ⟨⟨hnum, -⟩, hne, -⟩
    exact absurd ⟨hnum, hne⟩ hc
  | cons t ts ih =>
    have ih' : ∀ f', Fresh T f' ts →
        (resume T f' ts = .accepted g ↔ FoundNum T f' ts g.num ∧ FoundName T f' ts g.name) := by
      intro f' hfresh'
      by_cases hc' : f'.Complete
      · exact resume_iff_of_complete hc' hfresh'
      · rw [resume_of_not_complete hc']
        exact ih hid.tail hname.tail hfresh' hc'
    by_cases hi : T.hwRevId = t.type
    · exact scanTlvs_cons_id_iff hi (hid.tail_ne hi.symm) hfresh ih'
    by_cases hn : T.hwRevName = t.type
    · exact scanTlvs_cons_name_iff hn (hname.tail_ne hn.symm) hfresh ih'
    · exact scanTlvs_cons_other_iff (Ne.symm hi) (Ne.symm hn) hfresh ih'

/-- On a list with at most one TLV of each revision type, a search from nothing accepts exactly the
revision that a usable ID TLV and a usable name TLV of the list hold. -/
theorem scanTlvs_accepted_iff (hid : AtMostOne T.hwRevId ts) (hname : AtMostOne T.hwRevName ts) :
    scanTlvs T .none ts = .accepted g ↔
      (∃ i ∈ ts, IsHwRevId T i ∧ g.num = ofBE i.value) ∧
        ∃ m ∈ ts, IsHwRevName T m ∧ g.name = m.value.takeWhile (· ≠ 0) := by
  have hc : ¬ Found.none.Complete := by decide
  rw [← resume_of_not_complete hc,
    resume_iff hid hname ⟨fun h => absurd rfl h, fun h => absurd rfl h⟩]
  simp [FoundNum, FoundName, Found.none]

end

end FwLoader.Image
