import FwLoader.Foundations.CMemory

/-!
# The order of the parts of a version

`semver_move_build_before_extra` of `fwloader_fw_ver.c` turns `core-extra+build` into
`core+build-extra` and copies every other version as it is. `ExtraFirst` and `BuildFirst` are the
two ways in which a text can have both separators behind its core. The result of the function here
is `none` where the C code would wrap a length around or leave one of the two buffers.
-/

namespace FwLoader.Version

open Foundations

/-- `'-'` -/
def dash : UInt8 := 0x2D

/-- `'+'` -/
def plus : UInt8 := 0x2B

/-- `"-+"` -/
def dashPlus : CString := ⟨[dash, plus], by simp [dash, plus]⟩

/-! ## The function -/

/-- `p_ext_start`, `ext_len`, `p_bld_start` and `bld_len`. -/
structure Parts where
  extStart : ℕ
  extLen : ℕ
  bldStart : ℕ
  bldLen : ℕ

/-- The parts of a version of `origVerLen` bytes with its separators at `pDash` and `pPlus`. -/
def sliceParts (origVerLen pDash pPlus : ℕ) : Option Parts :=
  if pDash < pPlus then do
    -- "core-extra+build"
    let pExtStart := pDash + 1
    let extLen ← ptrDiff pPlus pExtStart
    let pBldStart := pPlus + 1
    let bldLen ← ptrDiff origVerLen pBldStart
    some ⟨pExtStart, extLen, pBldStart, bldLen⟩
  else do
    -- "core+build-extra"
    let pBldStart := pPlus + 1
    let bldLen ← ptrDiff pDash pBldStart
    let pExtStart := pDash + 1
    let extLen ← ptrDiff origVerLen pExtStart
    some ⟨pExtStart, extLen, pBldStart, bldLen⟩

variable {n : ℕ}

/-- The three `memcpy`s and the separators between them, ended with a NUL. -/
def storeParts (pOrigVer : CString) (coreLen : ℕ) (parts : Parts) (pOutBuf : Buf n) :
    Option (Buf n) := do
  let p := 0
  let out ← pOutBuf.put p (← pOrigVer.read 0 coreLen)
  let p := p + coreLen
  let out ← out.put p [plus]
  let p := p + 1
  let out ← out.put p (← pOrigVer.read parts.bldStart parts.bldLen)
  let p := p + parts.bldLen
  let out ← out.put p [dash]
  let p := p + 1
  let out ← out.put p (← pOrigVer.read parts.extStart parts.extLen)
  let p := p + parts.extLen
  out.put p [0]

/-- `semver_move_build_before_extra` behind its check of the arguments. -/
def moveBuildBeforeExtra (pOrigVer : CString) (pOutBuf : Buf n) : Option (Bool × Buf n) :=
  let origVerLen := pOrigVer.strlen
  let coreLen := strcspn pOrigVer dashPlus
  match strchr pOrigVer coreLen dash, strchr pOrigVer coreLen plus with
  | some pDash, some pPlus => do
    let parts ← sliceParts origVerLen pDash pPlus
    let need := coreLen + 1 + parts.bldLen + 1 + parts.extLen + 1
    if n < need then some (false, pOutBuf)
    else
      let out ← storeParts pOrigVer coreLen parts pOutBuf
      some (true, out)
  | _, _ =>
    if n < origVerLen + 1 then some (false, pOutBuf)
    else do
      let out ← pOutBuf.strncpy pOrigVer (n - 1)
      let out ← out.put (n - 1) [0]
      some (true, out)

/-- `semver_move_build_before_extra`: its result and the output buffer behind it. -/
def semverMoveBuildBeforeExtra (pOrigVer : Option CString) (pOutBuf : Option (Buf n)) :
    Option (Bool × Option (Buf n)) :=
  match pOrigVer, pOutBuf with
  | some origVer, some outBuf =>
    if n = 0 then some (false, pOutBuf)
    else (moveBuildBeforeExtra origVer outBuf).map fun r => (r.1, some r.2)
  | _, _ => some (false, pOutBuf)

/-! ## The two orders -/

/-- The text is `core-extra+build`. -/
structure ExtraFirst (text core extra build : List UInt8) : Prop where
  eq : text = core ++ dash :: (extra ++ plus :: build)
  dash_notMem_core : dash ∉ core
  plus_notMem_core : plus ∉ core
  plus_notMem_extra : plus ∉ extra

/-- The text is `core+build-extra`. -/
structure BuildFirst (text core build extra : List UInt8) : Prop where
  eq : text = core ++ plus :: (build ++ dash :: extra)
  dash_notMem_core : dash ∉ core
  plus_notMem_core : plus ∉ core
  dash_notMem_build : dash ∉ build

theorem dash_ne_plus : dash ≠ plus := by decide

theorem mem_dashPlus (c : UInt8) : c ∈ dashPlus.bytes ↔ c = dash ∨ c = plus := by
  simp [dashPlus]

/-- A text with both separators has one of the two orders. -/
theorem extraFirst_or_buildFirst {text : List UInt8} (hdash : dash ∈ text) (hplus : plus ∈ text) :
    (∃ core extra build, ExtraFirst text core extra build) ∨
      ∃ core build extra, BuildFirst text core build extra := by
  obtain ⟨p, q, rfl, hp⟩ := List.eq_append_cons_of_mem hdash
  by_cases hplusp : plus ∈ p
  · obtain ⟨core, build, rfl, hcore⟩ := List.eq_append_cons_of_mem hplusp
    rw [List.mem_append, List.mem_cons, not_or, not_or] at hp
    exact Or.inr ⟨core, build, q, by simp, hp.1, hcore, hp.2.2⟩
  · have hplusq : plus ∈ q := by
      rcases List.mem_append.mp hplus with h | h
      · exact absurd h hplusp
      · exact (List.mem_cons.mp h).resolve_left dash_ne_plus.symm
    obtain ⟨extra, build, rfl, hextra⟩ := List.eq_append_cons_of_mem hplusq
    exact Or.inl ⟨p, extra, build, rfl, hp, hplusp, hextra⟩

theorem sliceParts_of_dash_lt {origVerLen pDash pPlus : ℕ} (h : pDash < pPlus)
    (hlen : pPlus < origVerLen) : sliceParts origVerLen pDash pPlus =
      some ⟨pDash + 1, pPlus - (pDash + 1), pPlus + 1, origVerLen - (pPlus + 1)⟩ := by
  simp only [sliceParts, if_pos h, ptrDiff_of_le (show pDash + 1 ≤ pPlus from h),
    ptrDiff_of_le (show pPlus + 1 ≤ origVerLen from hlen), Option.bind_eq_bind, Option.bind_some]

theorem sliceParts_of_plus_lt {origVerLen pDash pPlus : ℕ} (h : pPlus < pDash)
    (hlen : pDash < origVerLen) : sliceParts origVerLen pDash pPlus =
      some ⟨pDash + 1, origVerLen - (pDash + 1), pPlus + 1, pDash - (pPlus + 1)⟩ := by
  simp only [sliceParts, if_neg h.asymm, ptrDiff_of_le (show pPlus + 1 ≤ pDash from h),
    ptrDiff_of_le (show pDash + 1 ≤ origVerLen from hlen), Option.bind_eq_bind, Option.bind_some]

/-- Behind a core that is free of separators the span ends. -/
theorem strcspn_core {s : CString} {core rest : List UInt8} {c : UInt8}
    (hs : s.bytes = core ++ c :: rest) (hdash : dash ∉ core) (hplus : plus ∉ core)
    (hc : c ∈ dashPlus.bytes) : strcspn s dashPlus = core.length := by
  refine strcspn_eq hs (fun d hd => ?_) hc
  rw [mem_dashPlus, not_or]
  exact ⟨fun h => hdash (h ▸ hd), fun h => hplus (h ▸ hd)⟩

/-- The parts are stored in the new order when the buffer has room for them and a NUL. -/
theorem exists_storeParts {s : CString} (outBuf : Buf n) (parts : Parts) {coreLen : ℕ}
    {core extra build : List UInt8} (hcore : s.read 0 coreLen = some core)
    (hbuild : s.read parts.bldStart parts.bldLen = some build)
    (hextra : s.read parts.extStart parts.extLen = some extra)
    (hcoreLen : coreLen = core.length) (hbldLen : parts.bldLen = build.length)
    (hextLen : parts.extLen = extra.length)
    (hfit : core.length + build.length + extra.length + 3 ≤ n) :
    ∃ out, storeParts s coreLen parts outBuf = some out ∧
      core ++ plus :: (build ++ dash :: extra) ++ [0] <+: out.bytes := by
  obtain ⟨b₁, h₁, hpre₁⟩ := Buf.exists_put (b := outBuf) 0 core
    List.nil_prefix rfl (by omega)
  obtain ⟨b₂, h₂, hpre₂⟩ := Buf.exists_put (0 + coreLen) [plus] hpre₁
    (by simp; omega) (by simp; omega)
  obtain ⟨b₃, h₃, hpre₃⟩ := Buf.exists_put (0 + coreLen + 1) build hpre₂
    (by simp; omega) (by omega)
  obtain ⟨b₄, h₄, hpre₄⟩ := Buf.exists_put (0 + coreLen + 1 + parts.bldLen)
    [dash] hpre₃ (by simp; omega) (by simp; omega)
  obtain ⟨b₅, h₅, hpre₅⟩ := Buf.exists_put (0 + coreLen + 1 + parts.bldLen + 1)
    extra hpre₄ (by simp; omega) (by omega)
  obtain ⟨b₆, h₆, hpre₆⟩ := Buf.exists_put
    (0 + coreLen + 1 + parts.bldLen + 1 + parts.extLen) [0] hpre₅
    (by simp; omega) (by simp; omega)
  refine ⟨b₆, ?_, by simpa using hpre₆⟩
  simp only [storeParts, hcore, hbuild, hextra, Option.bind_eq_bind, Option.bind_some, h₁, h₂, h₃,
    h₄, h₅, h₆]

/-! ## What the function stores -/

/-- A buffer without room for `s` and a NUL is left alone; a larger one holds `r` afterwards. -/
def Stores (s r : CString) : Prop :=
  ∀ (n : ℕ) (outBuf : Buf n),
    (n < s.strlen + 1 → moveBuildBeforeExtra s outBuf = some (false, outBuf)) ∧
      (s.strlen + 1 ≤ n → ∃ out, moveBuildBeforeExtra s outBuf = some (true, out) ∧
        out.toCString = r)

/-- Both orders: the searches find the two separators and the slices are the parts between them. -/
theorem stores_of_parts {s r : CString} {core build extra : List UInt8}
    {pDash pPlus extStart bldStart : ℕ} (hspan : strcspn s dashPlus = core.length)
    (hdash : strchr s core.length dash = some pDash)
    (hplus : strchr s core.length plus = some pPlus)
    (hparts : sliceParts s.strlen pDash pPlus =
      some ⟨extStart, extra.length, bldStart, build.length⟩)
    (hcore : s.read 0 core.length = some core)
    (hbuild : s.read bldStart build.length = some build)
    (hextra : s.read extStart extra.length = some extra)
    (hlen : s.strlen = core.length + build.length + extra.length + 2)
    (hr : r.bytes = core ++ plus :: (build ++ dash :: extra)) : Stores s r := by
  intro n outBuf
  have hneed : core.length + 1 + build.length + 1 + extra.length + 1 = s.strlen + 1 := by omega
  constructor
  · intro hn
    simp only [moveBuildBeforeExtra, hspan, hdash, hplus, hparts, Option.bind_eq_bind,
      Option.bind_some, hneed, if_pos hn]
  · intro hn
    obtain ⟨out, hstore, hpre⟩ := exists_storeParts outBuf
      ⟨extStart, extra.length, bldStart, build.length⟩ hcore hbuild hextra rfl rfl rfl (by omega)
    refine ⟨out, ?_, Buf.toCString_of_prefix (hr ▸ hpre)⟩
    simp only [moveBuildBeforeExtra, hspan, hdash, hplus, hparts, Option.bind_eq_bind,
      Option.bind_some, hneed, if_neg (not_lt.mpr hn), hstore]

/-- A version that lacks one of the separators is copied. -/
theorem stores_self_of_notMem {s : CString} (h : dash ∉ s.bytes ∨ plus ∉ s.bytes) : Stores s s := by
  intro n outBuf
  have hcopy : moveBuildBeforeExtra s outBuf =
      if n < s.strlen + 1 then some (false, outBuf)
      else (outBuf.strncpy s (n - 1)).bind fun out =>
        (out.put (n - 1) [0]).bind fun out => some (true, out) := by
    rw [moveBuildBeforeExtra]
    rcases h with h | h
    · rw [strchr_eq_none h]
      rfl
    · rw [strchr_eq_none h]
      split
      · rename_i heq
        exact absurd heq (by simp)
      · rfl
  constructor
  · intro hn
    rw [hcopy, if_pos hn]
  · intro hn
    obtain ⟨out₁, out₂, h₁, h₂, hstr⟩ := Buf.exists_strncpy_put (b := outBuf) (s := s) (by omega)
    refine ⟨out₂, ?_, hstr⟩
    rw [hcopy, if_neg (not_lt.mpr hn), h₁, Option.bind_some, h₂, Option.bind_some]

namespace ExtraFirst

variable {s : CString} {core extra build : List UInt8}

/-- `core+build-extra` -/
def moved (h : ExtraFirst s.bytes core extra build) : CString where
  bytes := core ++ plus :: (build ++ dash :: extra)
  noNul c hc := by
    apply s.noNul
    rw [h.eq]
    simp only [List.mem_append, List.mem_cons] at hc ⊢
    tauto

theorem strlen_eq (h : ExtraFirst s.bytes core extra build) :
    s.strlen = core.length + build.length + extra.length + 2 := by
  rw [CString.strlen, h.eq]
  simp only [List.length_append, List.length_cons]
  omega

theorem strlen_moved (h : ExtraFirst s.bytes core extra build) : h.moved.strlen = s.strlen := by
  rw [h.strlen_eq, CString.strlen, moved]
  simp only [List.length_append, List.length_cons]
  omega

/-- A version with its extra in front of its build is stored with the two in the other order. -/
theorem stores (h : ExtraFirst s.bytes core extra build) : Stores s h.moved := by
  have hlen := h.strlen_eq
  have hspan := strcspn_core h.eq h.dash_notMem_core h.plus_notMem_core
    ((mem_dashPlus dash).mpr (Or.inl rfl))
  have hdash : strchr s core.length dash = some (core.length + 0) :=
    strchr_eq_some (p := []) h.eq rfl List.not_mem_nil
  have hplus : strchr s core.length plus = some (core.length + (dash :: extra).length) := by
    refine strchr_eq_some (q := build) h.eq rfl ?_
    rw [List.mem_cons, not_or]
    exact ⟨dash_ne_plus.symm, h.plus_notMem_extra⟩
  have hparts : sliceParts s.strlen (core.length + 0) (core.length + (dash :: extra).length) =
      some ⟨core.length + 1, extra.length, core.length + extra.length + 2, build.length⟩ := by
    rw [List.length_cons, sliceParts_of_dash_lt (by omega) (by omega), Option.some.injEq,
      Parts.mk.injEq]
    omega
  refine stores_of_parts (r := h.moved) hspan hdash hplus hparts ?_ ?_ ?_ hlen rfl
  · exact CString.read_eq (o := []) h.eq rfl rfl
  · refine CString.read_eq (o := core ++ dash :: (extra ++ [plus])) (q := []) ?_ ?_ rfl
    · rw [h.eq]
      simp
    · simp
      omega
  · refine CString.read_eq (o := core ++ [dash]) (q := plus :: build) ?_ ?_ rfl
    · rw [h.eq]
      simp
    · simp

end ExtraFirst

namespace BuildFirst

variable {s : CString} {core build extra : List UInt8}

theorem strlen_eq (h : BuildFirst s.bytes core build extra) :
    s.strlen = core.length + build.length + extra.length + 2 := by
  rw [CString.strlen, h.eq]
  simp only [List.length_append, List.length_cons]
  omega

/-- A version with its build in front of its extra is stored as it is. -/
theorem stores_self (h : BuildFirst s.bytes core build extra) : Stores s s := by
  have hlen := h.strlen_eq
  have hspan := strcspn_core h.eq h.dash_notMem_core h.plus_notMem_core
    ((mem_dashPlus plus).mpr (Or.inr rfl))
  have hplus : strchr s core.length plus = some (core.length + 0) :=
    strchr_eq_some (p := []) h.eq rfl List.not_mem_nil
  have hdash : strchr s core.length dash = some (core.length + (plus :: build).length) := by
    refine strchr_eq_some (q := extra) h.eq rfl ?_
    rw [List.mem_cons, not_or]
    exact ⟨dash_ne_plus, h.dash_notMem_build⟩
  have hparts : sliceParts s.strlen (core.length + (plus :: build).length) (core.length + 0) =
      some ⟨core.length + build.length + 2, extra.length, core.length + 1, build.length⟩ := by
    rw [List.length_cons, sliceParts_of_plus_lt (by omega) (by omega), Option.some.injEq,
      Parts.mk.injEq]
    omega
  refine stores_of_parts hspan hdash hplus hparts ?_ ?_ ?_ hlen h.eq
  · exact CString.read_eq (o := []) h.eq rfl rfl
  · refine CString.read_eq (o := core ++ [plus]) (q := dash :: extra) ?_ ?_ rfl
    · rw [h.eq]
      simp
    · simp
  · refine CString.read_eq (o := core ++ plus :: (build ++ [dash])) (q := []) ?_ ?_ rfl
    · rw [h.eq]
      simp
    · simp
      omega

end BuildFirst

/-- Every version without an extra in front of a build is stored as it is. -/
theorem stores_self {s : CString}
    (h : ∀ core extra build, ¬ExtraFirst s.bytes core extra build) : Stores s s := by
  by_cases hdash : dash ∈ s.bytes
  · by_cases hplus : plus ∈ s.bytes
    · rcases extraFirst_or_buildFirst hdash hplus with ⟨core, extra, build, hs⟩ | ⟨_, _, _, hs⟩
      · exact absurd hs (h core extra build)
      · exact hs.stores_self
    · exact stores_self_of_notMem (Or.inr hplus)
  · exact stores_self_of_notMem (Or.inl hdash)

/-- `r` is `s` with the extra of `core-extra+build` behind its build; no other version changes. -/
structure Moved (s r : CString) : Prop where
  of_extraFirst : ∀ core extra build, ExtraFirst s.bytes core extra build →
    r.bytes = core ++ plus :: (build ++ dash :: extra)
  of_not_extraFirst : (∀ core extra build, ¬ExtraFirst s.bytes core extra build) → r = s

/-- The version that is stored in place of `s`. -/
theorem exists_stores (s : CString) :
    ∃ r : CString, r.strlen = s.strlen ∧ Stores s r ∧ Stores r r ∧ Moved s r := by
  by_cases h : ∃ core extra build, ExtraFirst s.bytes core extra build
  · obtain ⟨core, extra, build, hs⟩ := h
    refine ⟨hs.moved, hs.strlen_moved, hs.stores, ?_, ?_, ?_⟩
    · exact stores_self fun c e b hmoved =>
        dash_ne_plus (append_cons_inj hmoved.plus_notMem_core hs.dash_notMem_core
          (hmoved.eq.symm.trans rfl)).2.1
    · intro c e b hs'
      obtain ⟨rfl, -, htail⟩ := append_cons_inj hs.dash_notMem_core hs'.dash_notMem_core
        (hs.eq.symm.trans hs'.eq)
      obtain ⟨rfl, -, rfl⟩ := append_cons_inj hs.plus_notMem_extra hs'.plus_notMem_extra htail
      rfl
    · exact fun hnot => absurd hs (hnot core extra build)
  · have hnot : ∀ core extra build, ¬ExtraFirst s.bytes core extra build :=
      fun core extra build hs => h ⟨core, extra, build, hs⟩
    exact ⟨s, rfl, stores_self hnot, stores_self hnot, fun _ _ _ hs => absurd hs (hnot _ _ _),
      fun _ => rfl⟩

/-- `semver_move_build_before_extra` succeeds exactly when the buffer has room for the version and
its NUL, stores the version with its parts in the new order, and changes nothing when it is called
again for what it stored. It never leaves a buffer and never wraps a length around. -/
theorem semverMoveBuildBeforeExtra_contract (s : CString) (outBuf : Buf n) :
    ∃ ret out, semverMoveBuildBeforeExtra (some s) (some outBuf) = some (ret, some out) ∧
      (ret = true ↔ s.strlen + 1 ≤ n) ∧ (ret = false → out = outBuf) ∧
      (ret = true → out.toCString.strlen = s.strlen ∧ out.bytes[s.strlen]? = some 0 ∧
        Moved s out.toCString ∧
        ∀ (m : ℕ) (outBuf' : Buf m), out.toCString.strlen + 1 ≤ m →
          ∃ out', semverMoveBuildBeforeExtra (some out.toCString) (some outBuf') =
            some (true, some out') ∧ out'.toCString = out.toCString) := by
  obtain ⟨r, hlen, hstores, hagain, hmoved⟩ := exists_stores s
  by_cases hn : s.strlen + 1 ≤ n
  · obtain ⟨out, hout, rfl⟩ := (hstores n outBuf).2 hn
    refine ⟨true, out, ?_, iff_of_true rfl hn, fun h => absurd h (by simp), fun _ => ?_⟩
    · rw [semverMoveBuildBeforeExtra, if_neg (by omega), hout]
      rfl
    refine ⟨hlen, ?_, hmoved, fun m outBuf' hm => ?_⟩
    · rw [← hlen]
      exact Buf.getElem?_strlen (by omega)
    · obtain ⟨out', hout', hstr⟩ := (hagain m outBuf').2 hm
      refine ⟨out', ?_, hstr⟩
      rw [semverMoveBuildBeforeExtra, if_neg (by omega), hout']
      rfl
  · refine ⟨false, outBuf, ?_, iff_of_false (by simp) hn, fun _ => rfl, fun h => absurd h (by simp)⟩
    rw [semverMoveBuildBeforeExtra]
    split
    · rfl
    · rw [(hstores n outBuf).1 (by omega)]
      rfl

end FwLoader.Version
