import FwLoader.Foundations.Protocols
import FwLoader.Image.ImageInfo

/-!
# Flash areas are opened and closed

The code opens a flash area, measures it, loads its header or reads it, and closes it again, with a
return on every error in between. `slotProtocol` allows this and nothing else: one area at a time,
and no use of an area that is not open. What finds out about a slot keeps to it whatever the flash
answers, and leaves no area open. `WellBracketed` says what this means for the calls of a run.
-/

namespace FwLoader.Image

open Foundations

/-! ## The protocol -/

section

variable (mayOpen : ℤ → Bool)

/-- At most one area is open, one of those that may be opened. It is used and closed while it is
open. -/
def areaProtocol : Protocol flashApi (Option ℤ) where
  step
    | none, ⟨.flashAreaOpen faId, rc⟩ =>
      if mayOpen faId then some (if rc ≠ (0 : ℤ) then none else some faId) else none
    | none, _ => none
    | some _, ⟨.flashAreaOpen _, _⟩ => none
    | some _, ⟨.flashAreaClose, _⟩ => some none
    | some faId, ⟨.bootImageLoadHeader, _⟩ => some (some faId)
    | some faId, ⟨.flashAreaRead _ _, _⟩ => some (some faId)

/-- An area is measured while it is open. `fw_info_find` needs no area. -/
def measureProtocol : Protocol slotApi (Option ℤ) where
  step
    | q, ⟨.fwInfoFind _, _⟩ => some q
    | none, _ => none
    | some faId, _ => some (some faId)

def slotProtocol : Protocol imageInfoApi (Option ℤ) := (areaProtocol mayOpen).sum measureProtocol

end

/-! ## The scan -/

section

variable {T : RuuviTlvTypes} {ids : FlashAreaIds} {mayOpen : ℤ → Bool} {faId : ℤ} {α : Type}

/-- A program that uses the open area and leaves it open. -/
abbrev UsesArea (mayOpen : ℤ → Bool) (faId : ℤ) (p : Prog flashApi α) : Prop :=
  Prog.Follows (areaProtocol mayOpen) (fun _ q => q = some faId) (some faId) p

theorem usesArea_pure (a : α) : UsesArea mayOpen faId (pure a) := rfl

theorem usesArea_flashAreaRead_bind {off len : ℕ} {f : ReadAnswer → Prog flashApi α}
    (h : ∀ r, UsesArea mayOpen faId (f r)) :
    UsesArea mayOpen faId (flashAreaRead off len >>= f) :=
  Prog.Follows.perform_bind fun r => ⟨some faId, rfl, h r⟩

theorem usesArea_findTlvs (magic : UInt16) (off : ℕ) :
    UsesArea mayOpen faId (findTlvsInFlashArea magic off) := by
  unfold findTlvsInFlashArea
  apply usesArea_flashAreaRead_bind
  intro r
  refine Prog.Follows.ite (fun _ => usesArea_pure _) fun _ => ?_
  exact Prog.Follows.ite (fun _ => usesArea_pure _) fun _ => usesArea_pure _

theorem usesArea_handleId (tlv : ImageTlv) (off : ℕ) (r : FwImageHwRev) :
    UsesArea mayOpen faId (handleTlvHwRevIdInFlashArea tlv off r) := by
  unfold handleTlvHwRevIdInFlashArea
  refine Prog.Follows.ite (fun _ => usesArea_pure _) fun _ => ?_
  refine Prog.Follows.ite (fun _ => usesArea_pure _) fun _ => ?_
  apply usesArea_flashAreaRead_bind
  intro a
  exact Prog.Follows.ite (fun _ => usesArea_pure _) fun _ => usesArea_pure _

theorem usesArea_handleName (tlv : ImageTlv) (off : ℕ) (r : FwImageHwRev) :
    UsesArea mayOpen faId (handleTlvHwRevNameInFlashArea tlv off r) := by
  unfold handleTlvHwRevNameInFlashArea
  refine Prog.Follows.ite (fun _ => usesArea_pure _) fun _ => ?_
  refine Prog.Follows.ite (fun _ => usesArea_pure _) fun _ => ?_
  apply usesArea_flashAreaRead_bind
  intro a
  exact Prog.Follows.ite (fun _ => usesArea_pure _) fun _ => usesArea_pure _

theorem usesArea_handleTlv (tlv : ImageTlv) (off : ℕ) (r : FwImageHwRev) :
    UsesArea mayOpen faId (fwImgHwRevHandleTlvHwRevInFlashArea T tlv off r) := by
  unfold fwImgHwRevHandleTlvHwRevInFlashArea
  refine Prog.Follows.ite (fun _ => Prog.Follows.bind_eq (usesArea_handleId _ _ _) ?_) fun _ =>
    Prog.Follows.bind_eq (usesArea_pure _) ?_
  all_goals
    intro res
    refine Prog.Follows.ite (fun _ => usesArea_pure _) fun _ => ?_
    exact Prog.Follows.ite (fun _ => usesArea_handleName _ _ _) fun _ => usesArea_pure _

theorem usesArea_flashScanBody (tlvsEndOff : ℕ) (st : ScanState) :
    UsesArea mayOpen faId (flashScanBody T tlvsEndOff st) := by
  unfold flashScanBody
  refine Prog.Follows.ite (fun _ => ?_) fun _ => usesArea_pure _
  apply usesArea_flashAreaRead_bind
  intro a
  refine Prog.Follows.ite (fun _ => usesArea_pure _) fun _ => ?_
  apply Prog.Follows.bind_eq (usesArea_handleTlv _ _ _)
  intro res
  refine Prog.Follows.ite (fun _ => usesArea_pure _) fun _ => ?_
  exact Prog.Follows.ite (fun _ => usesArea_pure _) fun _ => usesArea_pure _

theorem usesArea_findInternal (r : FwImageHwRev) :
    UsesArea mayOpen faId (fwImgHwRevFindInFlashAreaInternal T r) := by
  unfold fwImgHwRevFindInFlashAreaInternal
  refine Prog.Follows.perform_bind fun h => ⟨some faId, rfl, ?_⟩
  refine Prog.Follows.ite (fun _ => usesArea_pure _) fun _ => ?_
  refine Prog.Follows.bind_eq (usesArea_findTlvs _ _) fun tlvs => ?_
  cases tlvs with
  | none => exact usesArea_pure _
  | some tlvs => exact Prog.Follows.loop_eq (usesArea_flashScanBody _) _ _

/-! ## What finds out about a slot -/

/-- A program that opens areas only if it closes them again. -/
abbrev ClosesAreas (mayOpen : ℤ → Bool) (p : Prog imageInfoApi α) : Prop :=
  Prog.Follows (slotProtocol mayOpen) (fun _ q => q = none) none p

theorem closesAreas_pure (a : α) : ClosesAreas mayOpen (pure a) := rfl

/-- An area is opened, used if that has succeeded, and closed. -/
theorem closesAreas_of_open (hmay : mayOpen faId = true) {f : ℤ → Prog imageInfoApi α}
    (hfail : ∀ rc, rc ≠ 0 → ClosesAreas mayOpen (f rc))
    (hopen : Prog.Follows (slotProtocol mayOpen) (fun _ q => q = none) (some faId) (f 0)) :
    ClosesAreas mayOpen ((flashAreaOpen faId).inl >>= f) := by
  intro rc
  by_cases hrc : rc = (0 : ℤ)
  · subst hrc
    exact ⟨some faId, if_pos hmay, hopen⟩
  · refine ⟨none, ?_, hfail rc hrc⟩
    exact (if_pos hmay).trans (congrArg some (if_pos hrc))

theorem closesAreas_findInFlashArea (hmay : mayOpen faId = true) (r : FwImageHwRev) :
    ClosesAreas mayOpen (fwImgHwRevFindInFlashArea T faId r).inl := by
  refine Prog.Follows.inl (M := areaProtocol mayOpen) fun rc => ?_
  by_cases hrc : rc = (0 : ℤ)
  · subst hrc
    refine ⟨some faId, if_pos hmay, ?_⟩
    exact (usesArea_findInternal r.reset).bind_eq fun res _ => ⟨none, rfl, rfl⟩
  · refine ⟨none, (if_pos hmay).trans (congrArg some (if_pos hrc)), ?_⟩
    show Prog.Follows _ _ _ (if rc ≠ (0 : ℤ) then _ else _)
    rw [if_pos hrc]
    exact Prog.Follows.pure rfl

theorem closesAreas_getFlashAreaAddressAndSize (hmay : mayOpen faId = true) :
    ClosesAreas mayOpen (getFlashAreaAddressAndSize faId) := by
  refine closesAreas_of_open hmay (fun rc hrc => ?_) fun _ => ⟨_, rfl, fun _ => ⟨_, rfl, ?_⟩⟩
  · rw [if_pos hrc]
    exact closesAreas_pure _
  · exact fun _ => ⟨none, rfl, rfl⟩

theorem closesAreas_loadImageHeader (hmay : mayOpen faId = true) :
    ClosesAreas mayOpen (loadImageHeader faId) := by
  refine closesAreas_of_open hmay (fun rc hrc => ?_) fun _ => ⟨_, rfl, fun _ => ⟨none, rfl, rfl⟩⟩
  rw [if_pos hrc]
  exact closesAreas_pure _

/-- The slot that is found is the one that was asked for. -/
theorem follows_fwImgFindSlot {fwImgId : FwImgId}
    (hmay : mayOpen (faIdFromFwImgId ids fwImgId) = true) :
    Prog.Follows (slotProtocol mayOpen)
      (fun slot q => q = none ∧ ∀ found, slot = some found → found.faId = faIdFromFwImgId ids fwImgId)
      none (fwImgFindSlot ids fwImgId) := by
  unfold fwImgFindSlot
  refine Prog.Follows.ite (fun _ => ⟨rfl, nofun⟩) fun _ => ?_
  apply (closesAreas_getFlashAreaAddressAndSize hmay).bind_eq
  intro addressAndSize
  cases addressAndSize with
  | none => exact ⟨rfl, nofun⟩
  | some addressAndSize =>
    refine Prog.Follows.perform_bind fun pFwInfo => ⟨none, rfl, ?_⟩
    refine Prog.Follows.ite (fun _ => ⟨rfl, nofun⟩) fun _ => ?_
    apply (closesAreas_loadImageHeader hmay).bind_eq
    intro imgHdr
    refine ⟨rfl, fun found hfound => ?_⟩
    obtain ⟨hdr, -, rfl⟩ := Option.map_eq_some_iff.mp hfound
    rfl

theorem closesAreas_fwImgGetImageInfo {fwImgId : FwImgId}
    (hmay : mayOpen (faIdFromFwImgId ids fwImgId) = true) (out : ImageInfoOut) :
    ClosesAreas mayOpen (fwImgGetImageInfo T ids fwImgId out) := by
  apply (follows_fwImgFindSlot hmay).bind
  rintro slot _ ⟨rfl, hslot⟩
  cases slot with
  | none => exact closesAreas_pure _
  | some slot =>
    rw [← hslot slot rfl] at hmay
    exact Prog.Follows.bind_eq (closesAreas_findInFlashArea hmay _) fun _ => closesAreas_pure _

end

/-! ## What this means for the calls -/

section

/-- An area has been opened. -/
def isOpened : Event imageInfoApi → Bool
  | ⟨.inl (.flashAreaOpen _), rc⟩ => rc = (0 : ℤ)
  | _ => false

/-- An area has been closed. -/
def isClosed : Event imageInfoApi → Bool
  | ⟨.inl .flashAreaClose, _⟩ => true
  | _ => false

/-- A call that tries to open an area. -/
def IsOpen (e : Event imageInfoApi) : Prop := ∃ faId, e.call = .inl (.flashAreaOpen faId)

/-- A call that needs no area. -/
def IsFind (e : Event imageInfoApi) : Prop := ∃ faAddr, e.call = .inr (.fwInfoFind faAddr)

/-- The number of areas that have been opened and not been closed again. -/
def openAreas (es : List (Event imageInfoApi)) : ℤ := es.countP isOpened - es.countP isClosed

/-- At the end all areas are closed. In front of each call, one area is open if the call uses or
closes an area, and none if it opens one. -/
structure WellBracketed (es : List (Event imageInfoApi)) : Prop where
  closed : openAreas es = 0
  inside : ∀ es₁ e es₂, es = es₁ ++ e :: es₂ → ¬IsOpen e → ¬IsFind e → openAreas es₁ = 1
  outside : ∀ es₁ e es₂, es = es₁ ++ e :: es₂ → IsOpen e → openAreas es₁ = 0

variable {mayOpen : ℤ → Bool} {q q' : Option ℤ} {e : Event imageInfoApi}
  {es : List (Event imageInfoApi)}

/-- The number of open areas in a state of the protocol. -/
def areasOf (q : Option ℤ) : ℤ := if q.isSome then 1 else 0

theorem openAreas_append (es es' : List (Event imageInfoApi)) :
    openAreas (es ++ es') = openAreas es + openAreas es' := by
  unfold openAreas
  rw [List.countP_append, List.countP_append]
  omega

/-- All that an allowed call can do. -/
theorem slotProtocol_step (h : (slotProtocol mayOpen).step q e = some q') :
    (IsOpen e → areasOf q = 0) ∧ (¬IsOpen e → ¬IsFind e → areasOf q = 1) ∧
      areasOf q' = areasOf q + openAreas [e] := by
  obtain ⟨c, r⟩ := e
  cases q with
  | none =>
    rcases c with (faId | _ | _ | _) | (_ | _ | faAddr)
    any_goals (cases h; done)
    · obtain ⟨-, hq⟩ := Option.ite_none_right_eq_some.mp h
      refine ⟨fun _ => rfl, fun hno => absurd ⟨faId, rfl⟩ hno, ?_⟩
      rw [← Option.some.inj hq]
      by_cases hrc : r = (0 : ℤ)
      · rw [if_neg (not_not_intro hrc)]
        simp [openAreas, areasOf, isOpened, isClosed, hrc]
      · rw [if_pos hrc]
        simp [openAreas, areasOf, isOpened, isClosed, hrc]
    · obtain rfl := Option.some.inj h
      exact ⟨nofun, fun _ hno => absurd ⟨faAddr, rfl⟩ hno, rfl⟩
  | some faId =>
    rcases c with (_ | _ | _ | _) | (_ | _ | _)
    any_goals (cases h; done)
    all_goals
      obtain rfl := Option.some.inj h
      simp [openAreas, areasOf, IsOpen, isOpened, isClosed]

theorem openAreas_of_exec {q₀ : Option ℤ} (h : (slotProtocol mayOpen).exec q₀ es = some q) :
    areasOf q = areasOf q₀ + openAreas es := by
  induction es generalizing q₀ with
  | nil =>
    obtain rfl := Option.some.inj h
    exact (add_zero _).symm
  | cons e es ih =>
    obtain ⟨q₁, hstep, hexec⟩ := Option.bind_eq_some_iff.mp h
    show _ = _ + openAreas ([e] ++ es)
    rw [ih hexec, (slotProtocol_step hstep).2.2, openAreas_append, add_assoc]

theorem wellBracketed_of_exec (h : (slotProtocol mayOpen).exec none es = some none) :
    WellBracketed es := by
  have hsplit : ∀ es₁ e es₂, es = es₁ ++ e :: es₂ → ∃ q₁ q₂,
      areasOf q₁ = openAreas es₁ ∧ (slotProtocol mayOpen).step q₁ e = some q₂ := by
    rintro es₁ e es₂ rfl
    obtain ⟨q₁, q₂, hexec, hstep, -⟩ := Protocol.exists_step_of_exec h
    refine ⟨q₁, q₂, ?_, hstep⟩
    rw [openAreas_of_exec hexec]
    exact zero_add _
  refine ⟨?_, fun es₁ e es₂ hes hopen hfind => ?_, fun es₁ e es₂ hes hopen => ?_⟩
  · have hend := openAreas_of_exec h
    have hnone : areasOf none = 0 := rfl
    omega
  · obtain ⟨q₁, q₂, hareas, hstep⟩ := hsplit es₁ e es₂ hes
    rw [← hareas]
    exact (slotProtocol_step hstep).2.1 hopen hfind
  · obtain ⟨q₁, q₂, hareas, hstep⟩ := hsplit es₁ e es₂ hes
    rw [← hareas]
    exact (slotProtocol_step hstep).1 hopen

end

end FwLoader.Image
