import FwLoader.Foundations.Formats
import FwLoader.Version.Semver

/-!
# The build type

The shell command `ruuvi version_info` calls a build a production build by the end of the version
that `fwloader_fw_ver_init` has stored. A `SemVer` is a version in its parts; `text` is how it is
written and `stored` how it is kept. What ends the stored text is the extra, whatever stands in
front.
-/

namespace FwLoader.Version

open Foundations

/-! ## The code -/

/-- `fwloader_fw_ver_init`, as far as it fills `g_fw_ver_buf`, an array of the size of the literal
`APP_VERSION_EXTENDED_STRING` and its NUL. There is no result when the `__ASSERT` fails. -/
def fwloaderFwVerInit (appVersionExtendedString : CString) :
    Option (Buf (appVersionExtendedString.strlen + 1)) := do
  let (ok, gFwVerBuf) ← semverMoveBuildBeforeExtra (some appVersionExtendedString)
    (some (Buf.zero (appVersionExtendedString.strlen + 1)))
  if ok then gFwVerBuf else none

/-- `p_prod_suffix`, which is `"-prod"` -/
def prodSuffix : CString := ⟨[dash, 0x70, 0x72, 0x6F, 0x64], by simp [dash]⟩

/-- `is_prod` of `cmd_ruuvi_version_info`. The index is taken only when it is not below zero. -/
def isProd (versionStr : CString) : Option Bool :=
  let versionStrLen := versionStr.strlen
  if prodSuffix.strlen ≤ versionStrLen then do
    let start ← ptrDiff versionStrLen prodSuffix.strlen
    some (strcmp (versionStr.drop start) prodSuffix = 0)
  else some false

/-- The test of the last five bytes finds exactly the strings that end with the suffix. -/
theorem isProd_eq (s : CString) : isProd s = some (decide (prodSuffix.bytes <:+ s.bytes)) := by
  rw [isProd]
  split
  · rename_i hlen
    rw [ptrDiff_of_le hlen, Option.bind_eq_bind, Option.bind_some, Option.some.injEq,
      decide_eq_decide, strcmp_eq_zero_iff, List.suffix_iff_eq_drop]
    exact ⟨fun h => (congrArg CString.bytes h).symm, fun h => CString.ext h.symm⟩
  · rename_i hlen
    have hnot : ¬prodSuffix.bytes <:+ s.bytes := fun h => hlen h.length_le
    rw [decide_eq_false hnot]

/-! ## Versions and their texts -/

/-- A version with its optional parts. -/
structure SemVer where
  core : CString
  extra : Option CString
  build : Option CString
  dash_notMem_core : dash ∉ core.bytes
  plus_notMem_core : plus ∉ core.bytes
  plus_notMem_extra : ∀ e ∈ extra, plus ∉ e.bytes
  dash_notMem_build : ∀ b ∈ build, dash ∉ b.bytes
  plus_notMem_build : ∀ b ∈ build, plus ∉ b.bytes

/-- An optional part behind its separator. -/
def part (separator : UInt8) : Option CString → List UInt8
  | none => []
  | some s => separator :: s.bytes

theorem zero_notMem_part {separator : UInt8} (hsep : separator ≠ 0) (o : Option CString) :
    ∀ c ∈ part separator o, c ≠ 0 := by
  intro c hc
  rcases o with _ | s
  · exact absurd hc List.not_mem_nil
  · rcases List.mem_cons.mp hc with rfl | hc
    · exact hsep
    · exact s.noNul c hc

theorem notMem_part {c separator : UInt8} {o : Option CString} (hne : c ≠ separator)
    (h : ∀ s ∈ o, c ∉ s.bytes) : c ∉ part separator o := by
  rcases o with _ | s
  · exact List.not_mem_nil
  · rw [part, List.mem_cons, not_or]
    exact ⟨hne, h s rfl⟩

namespace SemVer

/-- `core`, `core-extra`, `core+build` or `core-extra+build` -/
def text (v : SemVer) : CString where
  bytes := v.core.bytes ++ (part dash v.extra ++ part plus v.build)
  noNul c hc := by
    rcases List.mem_append.mp hc with hc | hc
    · exact v.core.noNul c hc
    rcases List.mem_append.mp hc with hc | hc
    · exact zero_notMem_part (by decide) _ c hc
    · exact zero_notMem_part (by decide) _ c hc

/-- The text with the build in front of the extra. -/
def stored (v : SemVer) : CString where
  bytes := v.core.bytes ++ (part plus v.build ++ part dash v.extra)
  noNul c hc := by
    rcases List.mem_append.mp hc with hc | hc
    · exact v.core.noNul c hc
    rcases List.mem_append.mp hc with hc | hc
    · exact zero_notMem_part (by decide) _ c hc
    · exact zero_notMem_part (by decide) _ c hc

theorem dash_notMem_part_build (v : SemVer) : dash ∉ part plus v.build :=
  notMem_part dash_ne_plus v.dash_notMem_build

theorem plus_notMem_part_extra (v : SemVer) : plus ∉ part dash v.extra :=
  notMem_part dash_ne_plus.symm v.plus_notMem_extra

/-- In each of its four forms a version is stored with the build in front of the extra. -/
theorem stores_text (v : SemVer) : Stores v.text v.stored := by
  rcases he : v.extra with _ | extra
  · have heq : v.stored = v.text := by
      ext1
      simp only [text, stored, he, part, List.append_nil, List.nil_append]
    rw [heq]
    refine stores_self_of_notMem (Or.inl ?_)
    simp only [text, he, part, List.nil_append, List.mem_append, not_or]
    exact ⟨v.dash_notMem_core, v.dash_notMem_part_build⟩
  rcases hb : v.build with _ | build
  · have heq : v.stored = v.text := by
      ext1
      simp only [text, stored, hb, part, List.append_nil, List.nil_append]
    rw [heq]
    refine stores_self_of_notMem (Or.inr ?_)
    simp only [text, hb, part, List.append_nil, List.mem_append, not_or]
    exact ⟨v.plus_notMem_core, v.plus_notMem_part_extra⟩
  · have hfirst : ExtraFirst v.text.bytes v.core.bytes extra.bytes build.bytes :=
      { eq := by simp only [text, he, hb, part, List.cons_append]
        dash_notMem_core := v.dash_notMem_core
        plus_notMem_core := v.plus_notMem_core
        plus_notMem_extra := v.plus_notMem_extra extra he }
    have heq : v.stored = hfirst.moved := by
      ext1
      simp only [stored, he, hb, part, ExtraFirst.moved, List.cons_append]
    exact heq ▸ hfirst.stores

theorem bytes_stored (v : SemVer) :
    v.stored.bytes = (v.core.bytes ++ part plus v.build) ++ part dash v.extra :=
  (List.append_assoc _ _ _).symm

/-- What ends the stored text after its last separator `'-'` is decided by the extra alone. -/
theorem prodSuffix_suffix_stored_iff (v : SemVer) :
    prodSuffix.bytes <:+ v.stored.bytes ↔ prodSuffix.bytes <:+ part dash v.extra := by
  constructor
  · intro h
    have hfront : dash ∉ v.core.bytes ++ part plus v.build := by
      rw [List.mem_append, not_or]
      exact ⟨v.dash_notMem_core, v.dash_notMem_part_build⟩
    have hstored : part dash v.extra <:+ v.stored.bytes :=
      ⟨_, v.bytes_stored.symm⟩
    rcases List.suffix_or_suffix_of_suffix h hstored with hle | ⟨w, hw⟩
    · exact hle
    rcases w with _ | ⟨c, w⟩
    · exact ⟨[], hw.symm⟩
    -- the suffix would begin in front of the extra, and it begins with a dash
    · obtain ⟨t, ht⟩ := h
      obtain ⟨rfl, -⟩ := List.cons.inj hw
      rw [← hw, bytes_stored, ← List.append_assoc] at ht
      refine absurd ?_ hfront
      rw [← List.append_cancel_right ht]
      exact List.mem_append_right t List.mem_cons_self
  · intro h
    exact h.trans ⟨_, v.bytes_stored.symm⟩

end SemVer

/-- `"prod"` -/
def prod : CString := ⟨[0x70, 0x72, 0x6F, 0x64], by simp⟩

theorem prodSuffix_suffix_part_iff (extra : Option CString) :
    prodSuffix.bytes <:+ part dash extra ↔
      ∃ e, extra = some e ∧ (e = prod ∨ prodSuffix.bytes <:+ e.bytes) := by
  rcases extra with _ | e
  · simp [part, prodSuffix]
  · have hcons : prodSuffix.bytes = dash :: prod.bytes := rfl
    simp only [part, List.suffix_cons_iff, Option.some.injEq, exists_eq_left']
    refine or_congr_left ?_
    rw [hcons, List.cons.injEq, and_iff_right rfl, CString.ext_iff, eq_comm]

/-- The command takes a build for a production build exactly when the version has an extra that is
`prod` or ends with `-prod`, and its index is never below zero. -/
theorem isProd_stored_iff (v : SemVer) :
    ∃ gFwVerBuf prodBuild, fwloaderFwVerInit v.text = some gFwVerBuf ∧
      isProd gFwVerBuf.toCString = some prodBuild ∧
      (prodBuild = true ↔
        ∃ e, v.extra = some e ∧ (e = prod ∨ prodSuffix.bytes <:+ e.bytes)) := by
  obtain ⟨out, hout, hstr⟩ := (v.stores_text _ (Buf.zero (v.text.strlen + 1))).2 le_rfl
  refine ⟨out, _, ?_, isProd_eq _, ?_⟩
  · simp only [fwloaderFwVerInit, semverMoveBuildBeforeExtra, if_neg (Nat.succ_ne_zero _), hout,
      Option.map_some, Option.bind_eq_bind, Option.bind_some, if_true]
  · rw [decide_eq_true_eq, hstr, v.prodSuffix_suffix_stored_iff, prodSuffix_suffix_part_iff]

/-- Version 1.2.3 with an extra that ends with `-prod` and a build. -/
def sampleVersion : SemVer where
  core := .lit "1.2.3"
  extra := some (.lit "rc1-prod")
  build := some (.lit "4")
  dash_notMem_core := by decide
  plus_notMem_core := by decide
  plus_notMem_extra := by decide
  dash_notMem_build := by decide
  plus_notMem_build := by decide

/-- The build stands in front of the extra, and the version is that of a production build. -/
theorem isProd_stored_iff_sample :
    ∃ gFwVerBuf, fwloaderFwVerInit sampleVersion.text = some gFwVerBuf ∧
      gFwVerBuf.toCString = .lit "1.2.3+4-rc1-prod" ∧
      isProd gFwVerBuf.toCString = some true := by
  obtain ⟨gFwVerBuf, prodBuild, hbuf, hprod, hiff⟩ := isProd_stored_iff sampleVersion
  have htext : (fwloaderFwVerInit sampleVersion.text).map Buf.toCString =
      some (.lit "1.2.3+4-rc1-prod") := by decide
  rw [hbuf, Option.map_some] at htext
  have htrue : prodBuild = true :=
    hiff.mpr ⟨.lit "rc1-prod", rfl, .inr ⟨[0x72, 0x63, 0x31], by decide⟩⟩
  exact ⟨gFwVerBuf, hbuf, Option.some.inj htext, hprod.trans (congrArg some htrue)⟩

end FwLoader.Version
