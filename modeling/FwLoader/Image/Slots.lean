import FwLoader.Image.Areas
import FwLoader.Image.Contents

/-!
# A flash with several slots

The calls on a flash area are answered by the area that has been opened last. As the code uses an
area only between opening and closing it, and opens none but that of the slot it has been asked
about, what it reports of a slot is what this slot would have reported on a flash of its own.
-/

namespace FwLoader.Image

open Foundations

/-- What the calls on each area of a flash answer while that area is open, where the areas lie, and
what `fw_info_find` finds in memory. -/
structure Flash where
  area : ℤ → FlashArea
  off : ℤ → UInt32
  size : ℤ → UInt32
  fwInfo : UInt32 → FwInfoPtr

namespace Flash

variable (F : Flash)

/-- The flash as an environment, with the area that has been opened last as its state. -/
def handler : Handler imageInfoApi ℤ where
  answer opened
    | .inl (.flashAreaOpen faId) => (F.area faId).openRc faId
    | .inl .flashAreaClose => ()
    | .inl .bootImageLoadHeader => (F.area opened).loadHeader
    | .inl (.flashAreaRead off len) => (F.area opened).read off len
    | .inr .flashAreaGetOff => F.off opened
    | .inr .flashAreaGetSize => F.size opened
    | .inr (.fwInfoFind faAddr) => F.fwInfo faAddr
  next opened
    | .inl (.flashAreaOpen faId) => if (F.area faId).openRc faId ≠ 0 then opened else faId
    | _ => opened

/-- One area of the flash, on its own. -/
def slot (faId : ℤ) : Oracle imageInfoApi
  | .inl c => F.area faId c
  | .inr .flashAreaGetOff => F.off faId
  | .inr .flashAreaGetSize => F.size faId
  | .inr (.fwInfoFind faAddr) => F.fwInfo faAddr

variable {F} {T : RuuviTlvTypes} {ids : FlashAreaIds} {α : Type}

/-- As long as only one area may be opened and only an open area is used, the flash answers like
this area. -/
theorem answer_eq_slot {faId opened : ℤ} {q q' : Option ℤ} {c : imageInfoApi.Call}
    (hq : ∀ open', q = some open' → open' = faId ∧ opened = faId)
    (hstep : (slotProtocol (· = faId)).step q ⟨c, F.handler.answer opened c⟩ = some q') :
    F.handler.answer opened c = F.slot faId c ∧
      ∀ open', q' = some open' → open' = faId ∧ F.handler.next opened c = faId := by
  cases q with
  | none =>
    rcases c with (faId' | _ | _ | _) | (_ | _ | faAddr)
    any_goals (cases hstep; done)
    · obtain ⟨hmay, hopened⟩ := Option.ite_none_right_eq_some.mp hstep
      obtain rfl : faId' = faId := of_decide_eq_true hmay
      have hq' : (if (F.area faId').openRc faId' ≠ 0 then none else some faId') = q' :=
        Option.some.inj hopened
      refine ⟨rfl, fun open' hopen => ?_⟩
      show _ ∧ (if (F.area faId').openRc faId' ≠ 0 then opened else faId') = faId'
      rw [← hq'] at hopen
      split at hopen
      · exact nomatch hopen
      · rename_i hrc
        exact ⟨(Option.some.inj hopen).symm, if_neg hrc⟩
    · refine ⟨rfl, fun open' hopen => ?_⟩
      rw [← Option.some.inj hstep] at hopen
      exact nomatch hopen
  | some open' =>
    obtain ⟨rfl, rfl⟩ := hq open' rfl
    rcases c with (_ | _ | _ | _) | (_ | _ | _)
    any_goals (cases hstep; done)
    all_goals
      refine ⟨rfl, fun open'' hopen => ?_⟩
      rw [← Option.some.inj hstep] at hopen
      first
      | exact ⟨(Option.some.inj hopen).symm, rfl⟩
      | exact nomatch hopen

/-- A program that opens one area only runs as if the flash had no other. -/
theorem run_eq_eval_slot {faId : ℤ} {p : Prog imageInfoApi α}
    (h : ClosesAreas (· = faId) p) (opened : ℤ) :
    (p.run F.handler opened).1 = p.eval (F.slot faId) :=
  (Prog.Follows.run_eq_eval
    (J := fun q opened => ∀ open', q = some open' → open' = faId ∧ opened = faId)
    (fun _ _ _ _ hq hstep => answer_eq_slot hq hstep) h nofun).1

/-- What is reported of a slot is what its own area and `fw_info_find` say, whatever has been opened
before and whatever the other areas hold. -/
theorem run_fwImgGetImageInfo (fwImgId : FwImgId) (out : ImageInfoOut) (opened : ℤ) :
    ((fwImgGetImageInfo T ids fwImgId out).run F.handler opened).1 =
      (fwImgGetImageInfo T ids fwImgId out).eval (F.slot (faIdFromFwImgId ids fwImgId)) :=
  run_eq_eval_slot (closesAreas_fwImgGetImageInfo (by simp) out) opened

/-- What is reported of a slot depends on nothing but its own area and `fw_info_find`: neither on the
other areas nor on what has been opened before. -/
theorem fwImgGetImageInfo_congr {F F' : Flash} {fwImgId : FwImgId}
    (harea : F.area (faIdFromFwImgId ids fwImgId) = F'.area (faIdFromFwImgId ids fwImgId))
    (hoff : F.off (faIdFromFwImgId ids fwImgId) = F'.off (faIdFromFwImgId ids fwImgId))
    (hsize : F.size (faIdFromFwImgId ids fwImgId) = F'.size (faIdFromFwImgId ids fwImgId))
    (hfwInfo : F.fwInfo = F'.fwInfo) (out : ImageInfoOut) (opened opened' : ℤ) :
    ((fwImgGetImageInfo T ids fwImgId out).run F.handler opened).1 =
      ((fwImgGetImageInfo T ids fwImgId out).run F'.handler opened').1 := by
  have hslot : F.slot (faIdFromFwImgId ids fwImgId) = F'.slot (faIdFromFwImgId ids fwImgId) := by
    funext c
    rcases c with c | (_ | _ | faAddr)
    · exact congrFun harea c
    · exact hoff
    · exact hsize
    · exact congrFun hfwInfo faAddr
  rw [run_fwImgGetImageInfo, run_fwImgGetImageInfo, hslot]

/-! ## Reports -/

variable (F ids) in
/-- The header of the image in a slot, as `boot_image_load_header` answers it of the slot's own
area. There is one if the area has an ID and opens, a `struct fw_info` is found for its address, and
`boot_image_load_header` succeeds. -/
def header (fwImgId : FwImgId) : Option ImageHeader :=
  let faId := faIdFromFwImgId ids fwImgId
  if ids.faIdInvalid ≠ faId ∧ (F.area faId).openRc faId = 0 ∧ F.fwInfo (F.off faId) ≠ none ∧
      (F.area faId).loadHeader.rc = 0 then
    some (F.area faId).loadHeader.hdr
  else none

variable (F T ids) in
/-- The revision that the slot's own area tells. -/
def revision (fwImgId : FwImgId) : FwImageHwRev :=
  (F.area (faIdFromFwImgId ids fwImgId)).revision T

variable (F T ids) in
/-- What there is to report of a slot. -/
def report (fwImgId : FwImgId) : Option (Slot × FwImageHwRev) :=
  let faId := faIdFromFwImgId ids fwImgId
  (F.header ids fwImgId).map fun hdr =>
    (⟨faId, F.fwInfo (F.off faId), hdr⟩, F.revision T ids fwImgId)

variable (F) in
/-- Each area is of its size, and MCUboot accepts no image that reaches its end. -/
def Bounded : Prop := ∀ faId, ∃ areaSize, FlashBounds (Prog.handler (F.area faId)) areaSize

theorem eval_getFlashAreaAddressAndSize (faId : ℤ) :
    (getFlashAreaAddressAndSize faId).eval (F.slot faId) =
      if (F.area faId).openRc faId ≠ 0 then none else some (F.off faId, F.size faId) := by
  unfold getFlashAreaAddressAndSize
  show Prog.eval _ (if (F.area faId).openRc faId ≠ 0 then _ else _) = _
  rw [Prog.eval_ite]
  rfl

theorem eval_loadImageHeader (faId : ℤ) :
    (loadImageHeader faId).eval (F.slot faId) =
      if (F.area faId).openRc faId ≠ 0 then none
      else if (F.area faId).loadHeader.rc ≠ 0 then none else some (F.area faId).loadHeader.hdr := by
  unfold loadImageHeader
  show Prog.eval _ (if (F.area faId).openRc faId ≠ 0 then _ else _) = _
  rw [Prog.eval_ite]
  rfl

/-- The slot is found exactly if it has a header. -/
theorem eval_fwImgFindSlot (fwImgId : FwImgId) :
    (fwImgFindSlot ids fwImgId).eval (F.slot (faIdFromFwImgId ids fwImgId)) =
      (F.header ids fwImgId).map fun hdr =>
        ⟨faIdFromFwImgId ids fwImgId, F.fwInfo (F.off (faIdFromFwImgId ids fwImgId)), hdr⟩ := by
  unfold fwImgFindSlot header
  generalize faIdFromFwImgId ids fwImgId = faId
  by_cases hvalid : ids.faIdInvalid = faId
  · rw [if_pos hvalid, if_neg fun h => h.1 hvalid]
    rfl
  rw [if_neg hvalid, Prog.eval_bind, eval_getFlashAreaAddressAndSize]
  by_cases hopen : (F.area faId).openRc faId ≠ 0
  · rw [if_pos hopen, if_neg fun h => hopen h.2.1]
    rfl
  rw [if_neg hopen]
  show Prog.eval _ (if F.fwInfo (F.off faId) = none then _ else _) = _
  by_cases hinfo : F.fwInfo (F.off faId) = none
  · rw [if_pos hinfo, if_neg fun h => h.2.2.1 hinfo]
    rfl
  rw [if_neg hinfo, Prog.eval_bind, eval_loadImageHeader, if_neg hopen]
  by_cases hheader : (F.area faId).loadHeader.rc ≠ 0
  · rw [if_pos hheader, if_neg fun h => hheader h.2.2.2]
    rfl
  · rw [if_neg hheader, if_pos ⟨hvalid, not_not.mp hopen, hinfo, not_not.mp hheader⟩]
    rfl

/-- The scan of a slot that is there leaves the revision that the area tells, whether it succeeds or
not. -/
theorem revision_eq_of_eval (hF : F.Bounded) {fwImgId : FwImgId} {hdr : ImageHeader}
    (hheader : F.header ids fwImgId = some hdr) {res : Bool × FwImageHwRev}
    (h : (fwImgHwRevFindInFlashArea T (faIdFromFwImgId ids fwImgId) ⟨0, .zero _⟩).eval
      (F.area (faIdFromFwImgId ids fwImgId)) = some res) : res.2 = F.revision T ids fwImgId := by
  obtain ⟨areaSize, hbounds⟩ := hF (faIdFromFwImgId ids fwImgId)
  obtain ⟨⟨-, hopen, -, hload⟩, -⟩ := Option.ite_none_right_eq_some.mp hheader
  exact FlashArea.findInFlashArea_eq_revision hbounds hopen hload h

/-- Where there is something to report, `fw_img_get_image_info` stores it; else it changes
nothing. -/
theorem eval_fwImgGetImageInfo (hF : F.Bounded) (fwImgId : FwImgId) (out : ImageInfoOut) :
    (fwImgGetImageInfo T ids fwImgId out).eval (F.slot (faIdFromFwImgId ids fwImgId)) =
      some ((F.report T ids fwImgId).elim (false, out) fun p => (true, out.store p.1 p.2)) := by
  rw [fwImgGetImageInfo, Prog.eval_bind, eval_fwImgFindSlot, report]
  rcases hheader : F.header ids fwImgId with _ | hdr
  · rfl
  obtain ⟨areaSize, hbounds⟩ := hF (faIdFromFwImgId ids fwImgId)
  obtain ⟨res, hres⟩ := findInFlashArea_returns (T := T) hbounds (faIdFromFwImgId ids fwImgId)
    ⟨0, .zero _⟩ ()
  rw [Prog.run_handler] at hres
  have hinl : (fwImgHwRevFindInFlashArea T (faIdFromFwImgId ids fwImgId) ⟨0, .zero _⟩).inl.eval
      (F.slot (faIdFromFwImgId ids fwImgId)) = some res := by
    rw [Prog.eval_inl]
    exact hres
  show Prog.eval _ ((fwImgHwRevFindInFlashArea T _ ⟨0, .zero _⟩).inl >>= _) = _
  rw [Prog.eval_bind, hinl, ← revision_eq_of_eval hF hheader hres]
  rfl

/-- On a flash with several areas, a slot is reported of as on a flash of its own. -/
theorem run_fwImgGetImageInfo_eq (hF : F.Bounded) (fwImgId : FwImgId) (out : ImageInfoOut)
    (opened : ℤ) :
    ((fwImgGetImageInfo T ids fwImgId out).run F.handler opened).1 =
      some ((F.report T ids fwImgId).elim (false, out) fun p => (true, out.store p.1 p.2)) := by
  rw [run_fwImgGetImageInfo, eval_fwImgGetImageInfo hF]

end Flash

/-- A flash with an image in each area, complete in the first one only. -/
def sampleFlash : Flash where
  area faId := FlashArea.ofBytes (if faId = 1 then twoHalves else oneHalf)
  off _ := 0x8000
  size _ := 0x1000
  fwInfo faAddr := some (faAddr + 0x200)

theorem sampleFlash_bounded : sampleFlash.Bounded := by
  intro faId
  show ∃ areaSize, FlashBounds (Prog.handler (FlashArea.ofBytes (if faId = 1 then twoHalves
    else oneHalf))) areaSize
  split
  · exact ⟨_, flashBounds_ofBytes (by decide) (by decide)⟩
  · exact ⟨_, flashBounds_ofBytes (by decide) (by decide)⟩

/-- The same report of the first slot, whether or not the other slots hold that image as well. -/
theorem fwImgGetImageInfo_congr_sample :
    ((fwImgGetImageInfo sampleTypes sampleIds .app sampleOut).run sampleFlash.handler 3).1 =
      ((fwImgGetImageInfo sampleTypes sampleIds .app sampleOut).run
        { sampleFlash with area := fun _ => FlashArea.ofBytes twoHalves }.handler 7).1 :=
  Flash.fwImgGetImageInfo_congr rfl rfl rfl rfl sampleOut 3 7

end FwLoader.Image
