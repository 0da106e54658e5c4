import FwLoader.Image.ImageInfo
import FwLoader.Foundations.CString

/-!
# Names end inside their array

`hw_rev_name` is printed with `%s` and handed to `strlen`, so there has to be a NUL in its 16 bytes.
A scan that succeeds has stored one itself, whatever was in the array before. A scan that fails may
have stored the beginning of a name only; then it is the NUL at the end of the array that counts,
which no read can reach.
-/

namespace Foundations.Buf

variable {n : ℕ}

/-- There is a NUL in the array. -/
def Terminated (b : Buf n) : Prop := 0 ∈ b.bytes

instance (b : Buf n) : Decidable b.Terminated := inferInstanceAs (Decidable (_ ∈ _))

/-- A terminated array is read as a string that is shorter than the array. -/
theorem terminated_iff_strlen_lt {b : Buf n} : b.Terminated ↔ b.toCString.strlen < n := by
  have hlen : b.toCString.strlen ≤ n :=
    (List.takeWhile_prefix _).length_le.trans_eq b.length_eq
  constructor
  · intro h
    refine hlen.lt_of_ne fun heq => ?_
    have hall : b.bytes.takeWhile (· ≠ 0) = b.bytes :=
      (List.takeWhile_prefix _).eq_of_length (heq.trans b.length_eq.symm)
    exact (b.toCString.noNul 0 (by
      show 0 ∈ b.bytes.takeWhile (· ≠ 0)
      rwa [hall])) rfl
  · intro h
    exact List.mem_of_getElem? (getElem?_strlen h)

theorem terminated_set_zero {b : Buf n} {i : ℕ} (h : i < n) : (b.set i 0).Terminated :=
  List.mem_set (h.trans_eq b.length_eq.symm) 0

/-- The last byte of the array is NUL. -/
def LastNul (b : Buf n) : Prop := b.bytes.getLast? = some 0

instance (b : Buf n) : Decidable b.LastNul := inferInstanceAs (Decidable (_ = _))

theorem LastNul.terminated {b : Buf n} (h : b.LastNul) : b.Terminated := List.mem_of_getLast? h

theorem LastNul.set_zero {b : Buf n} (h : b.LastNul) (i : ℕ) : (b.set i 0).LastNul := by
  unfold LastNul at h ⊢
  rw [List.getLast?_eq_getElem?] at h ⊢
  rw [bytes_set, List.length_set, List.getElem?_set]
  split_ifs with heq hlt
  · rfl
  · rw [List.getElem?_eq_none (by omega)] at h
    exact nomatch h
  · exact h

/-- A text that is shorter than the array does not reach its last byte. -/
theorem LastNul.write {b : Buf n} {new : List UInt8} (h : b.LastNul) (hlen : new.length < n) :
    (b.write new).LastNul := by
  unfold LastNul at h ⊢
  have hdrop : (b.bytes.drop new.length).getLast? = some 0 := by
    rw [List.getLast?_drop, if_neg (by rw [b.length_eq]; omega), h]
  rw [bytes_write, overlay_of_length_le (by rw [b.length_eq]; omega), List.getLast?_append, hdrop]
  rfl

end Foundations.Buf

namespace FwLoader.Image

open Foundations

section

variable {T : RuuviTlvTypes}

/-- A read stores no more bytes than it has been asked for. -/
def FitsRead : Event flashApi → Prop
  | ⟨.flashAreaRead _ len, a⟩ => a.bytes.length ≤ len
  | _ => True

instance : DecidablePred FitsRead := fun
  | ⟨.flashAreaRead _ len, a⟩ => inferInstanceAs (Decidable (a.bytes.length ≤ len))
  | ⟨.flashAreaOpen _, _⟩ => .isTrue trivial
  | ⟨.flashAreaClose, _⟩ => .isTrue trivial
  | ⟨.bootImageLoadHeader, _⟩ => .isTrue trivial

/-- All reads among some calls store no more bytes than they have been asked for. -/
def ReadsFit (es : List (Event flashApi)) : Prop := ∀ e ∈ es, FitsRead e

instance (es : List (Event flashApi)) : Decidable (ReadsFit es) :=
  inferInstanceAs (Decidable (∀ e ∈ es, FitsRead e))

theorem ReadsFit.left {es es' : List (Event flashApi)} (h : ReadsFit (es ++ es')) : ReadsFit es :=
  fun e he => h e (List.mem_append_left _ he)

theorem ReadsFit.right {es es' : List (Event flashApi)} (h : ReadsFit (es ++ es')) : ReadsFit es' :=
  fun e he => h e (List.mem_append_right _ he)

/-- What the calls `es` of a handler or of the scan make of the name: after a success it ends inside
its array, and a NUL at the end of the array stays there. -/
structure NameEnds (r : FwImageHwRev) (es : List (Event flashApi)) (res : Bool × FwImageHwRev) :
    Prop where
  ok : res.1 = true → r.hwRevName.Terminated → res.2.hwRevName.Terminated
  lastNul : ReadsFit es → r.hwRevName.LastNul → res.2.hwRevName.LastNul

/-- What does not touch the name. -/
theorem nameEnds_of_eq {r r' : FwImageHwRev} {es : List (Event flashApi)} (ok : Bool)
    (h : r'.hwRevName = r.hwRevName) : NameEnds r es (ok, r') := by
  refine ⟨fun _ hr => ?_, fun _ hr => ?_⟩ <;> rwa [h]

theorem NameEnds.trans {r r' : FwImageHwRev} {es es' : List (Event flashApi)}
    {res : Bool × FwImageHwRev} (h : NameEnds r es (true, r'))
    (h' : NameEnds r' es' res) : NameEnds r (es ++ es') res :=
  ⟨fun hok hr => h'.ok hok (h.ok rfl hr),
    fun hfit hr => h'.lastNul hfit.right (h.lastNul hfit.left hr)⟩

theorem handleId_nameEnds (tlv : ImageTlv) (off : ℕ) (r : FwImageHwRev) :
    (handleTlvHwRevIdInFlashArea tlv off r).Relates (NameEnds r) := by
  unfold handleTlvHwRevIdInFlashArea
  refine Prog.relates_ite (fun _ => nameEnds_of_eq _ rfl) fun _ => ?_
  refine Prog.relates_ite (fun _ => nameEnds_of_eq _ rfl) fun _ => ?_
  refine Prog.relates_perform_bind fun a => ?_
  exact Prog.relates_ite (fun _ => nameEnds_of_eq _ rfl) fun _ => nameEnds_of_eq _ rfl

theorem handleName_nameEnds (tlv : ImageTlv) (off : ℕ) (r : FwImageHwRev) :
    (handleTlvHwRevNameInFlashArea tlv off r).Relates (NameEnds r) := by
  unfold handleTlvHwRevNameInFlashArea
  refine Prog.relates_ite (fun _ => nameEnds_of_eq _ rfl) fun hlen => ?_
  refine Prog.relates_ite (fun _ => nameEnds_of_eq _ rfl) fun _ => ?_
  have hshort : tlv.itLen.toNat < fwInfoHwRevNameMaxLen + 1 := Nat.not_le.mp hlen
  have hwrite : ∀ a : ReadAnswer,
      ReadsFit [⟨FlashCall.flashAreaRead (sizeT (off + ImageTlv.size)) tlv.itLen.toNat, a⟩] →
        r.hwRevName.LastNul → (r.hwRevName.write a.bytes).LastNul := by
    intro a hfit hr
    exact hr.write (lt_of_le_of_lt (hfit _ List.mem_cons_self) hshort)
  refine Prog.relates_perform_bind fun a => Prog.relates_ite (fun _ => ?_) fun _ => ?_
  · exact ⟨nofun, hwrite a⟩
  · exact ⟨fun _ _ => Buf.terminated_set_zero hshort,
      fun hfit hr => (hwrite a hfit hr).set_zero _⟩

/-- The part of the handler behind the ID. -/
theorem handleNameOrNot_nameEnds {tlv : ImageTlv} {off : ℕ} {r : FwImageHwRev}
    {es : List (Event flashApi)} {res : Bool × FwImageHwRev} (h : NameEnds r es res) :
    Prog.Relates (fun es' => NameEnds r (es ++ es'))
      (if res.1 = false then pure res
        else if T.hwRevName = tlv.itType then handleTlvHwRevNameInFlashArea tlv off res.2
        else pure res) := by
  have hpure : Prog.Relates (fun es' => NameEnds r (es ++ es')) (pure res) :=
    Prog.relates_pure (by rwa [List.append_nil])
  refine Prog.relates_ite (fun _ => hpure) fun hok => Prog.relates_ite (fun _ => ?_) fun _ => hpure
  obtain ⟨ok, r'⟩ := res
  obtain rfl : ok = true := by simpa using hok
  exact (handleName_nameEnds tlv off r').mono fun es' res hres => h.trans hres

theorem handleTlv_nameEnds (tlv : ImageTlv) (off : ℕ) (r : FwImageHwRev) :
    (fwImgHwRevHandleTlvHwRevInFlashArea T tlv off r).Relates (NameEnds r) := by
  unfold fwImgHwRevHandleTlvHwRevInFlashArea
  refine Prog.relates_ite (fun _ => ?_) fun _ => ?_
  · exact (handleId_nameEnds tlv off r).bind fun es res hres => handleNameOrNot_nameEnds hres
  · have hstart : NameEnds r [] (true, r) := nameEnds_of_eq true rfl
    exact handleNameOrNot_nameEnds hstart

/-- The name ends inside its array at each round, and at the end after a success. -/
theorem flashScanBody_nameEnds {tlvsEndOff : ℕ} {r : FwImageHwRev} {es : List (Event flashApi)}
    {st : ScanState} (h : NameEnds r es (true, st.hwRev)) :
    (flashScanBody T tlvsEndOff st).Relates fun es' =>
      Sum.elim (fun st' => NameEnds r (es ++ es') (true, st'.hwRev)) (NameEnds r (es ++ es')) := by
  have hrefuses : ∀ es', NameEnds r (es ++ es') (false, st.hwRev) := fun es' =>
    h.trans (nameEnds_of_eq false rfl)
  unfold flashScanBody
  refine Prog.relates_ite (fun _ => ?_) fun _ => Prog.relates_pure (hrefuses [])
  refine Prog.relates_perform_bind fun a => Prog.relates_ite (fun _ => hrefuses _) fun _ => ?_
  apply (handleTlv_nameEnds _ _ st.hwRev).bind
  intro es₁ res hres
  have hread : ReadsFit (⟨FlashCall.flashAreaRead st.dataOff ImageTlv.size, a⟩ :: es₁) →
      ReadsFit es₁ := fun hfit e he => hfit e (List.mem_cons_of_mem _ he)
  have hres' : NameEnds r (es ++ ⟨FlashCall.flashAreaRead st.dataOff ImageTlv.size, a⟩ ::
      (es₁ ++ [])) res := by
    rw [List.append_nil]
    exact h.trans ⟨hres.ok, fun hfit => hres.lastNul (hread hfit)⟩
  obtain ⟨ok, r'⟩ := res
  refine Prog.relates_ite (fun hno => ?_) fun hyes => ?_
  · obtain rfl : ok = false := hno
    exact hres'
  · obtain rfl : ok = true := by simpa using hyes
    exact Prog.relates_ite (fun _ => hres') fun _ => hres'

/-- What a scan makes of the name, if it returns. -/
def ScanNameEnds (r : FwImageHwRev) (es : List (Event flashApi))
    (res : Option (Bool × FwImageHwRev)) : Prop := res.elim True (NameEnds r es)

theorem ScanNameEnds.trans {r : FwImageHwRev} {es es' : List (Event flashApi)}
    {res : Option (Bool × FwImageHwRev)} (h : ScanNameEnds r es' res) :
    ScanNameEnds r (es ++ es') res := by
  cases res with
  | none => trivial
  | some res => exact NameEnds.trans (nameEnds_of_eq true rfl) h

theorem ScanNameEnds.snoc {r : FwImageHwRev} {es : List (Event flashApi)}
    {res : Option (Bool × FwImageHwRev)} (h : ScanNameEnds r es res) (e : Event flashApi) :
    ScanNameEnds r (es ++ [e]) res := by
  cases res with
  | none => trivial
  | some res => exact ⟨h.ok, fun hfit => h.lastNul hfit.left⟩

theorem findInternal_nameEnds (r : FwImageHwRev) :
    (fwImgHwRevFindInFlashAreaInternal T r).Relates (ScanNameEnds r) := by
  unfold fwImgHwRevFindInFlashAreaInternal
  refine Prog.relates_perform_bind fun h => Prog.relates_ite (fun _ => nameEnds_of_eq _ rfl)
    fun _ => ?_
  apply (Prog.relates_true _).bind
  intro es tlvs _
  cases tlvs with
  | none => exact nameEnds_of_eq _ rfl
  | some tlvs =>
    have hround : ∀ es (st : ScanState), NameEnds r es (true, st.hwRev) →
        (flashScanBody T tlvs.2 st).Relates fun es' => Sum.elim
          (fun st' => NameEnds r (es ++ es') (true, st'.hwRev))
          fun res => ScanNameEnds r (es ++ es') (some res) := fun es st => flashScanBody_nameEnds
    have hstart : NameEnds r [] (true, r) := nameEnds_of_eq true rfl
    have hloop : (Prog.loop (flashScanBody T tlvs.2) tlvLoopRounds ⟨tlvs.1, .zero, r⟩).Relates
        fun es' res => ScanNameEnds r ([] ++ es') res :=
      Prog.relates_loop hround (fun es => trivial) hstart
    apply hloop.mono
    intro es' res hres
    have hbehind : ScanNameEnds r ((⟨FlashCall.bootImageLoadHeader, h⟩ :: es) ++ es') res :=
      hres.trans
    exact hbehind

theorem findInFlashArea_nameEnds (faId : ℤ) (r : FwImageHwRev) :
    (fwImgHwRevFindInFlashArea T faId r).Relates (ScanNameEnds r.reset) := by
  unfold fwImgHwRevFindInFlashArea
  refine Prog.relates_perform_bind fun rc => Prog.relates_ite (fun _ => nameEnds_of_eq _ rfl)
    fun _ => ?_
  apply (findInternal_nameEnds r.reset).bind
  intro es res hres
  refine Prog.relates_perform_bind fun a => Prog.relates_pure ?_
  have hopen : ScanNameEnds r.reset ([⟨FlashCall.flashAreaOpen faId, rc⟩] ++ es) res := hres.trans
  exact hopen.snoc ⟨FlashCall.flashAreaClose, a⟩

/-- A name ends inside its array after every successful scan: whatever the array has held before,
whatever the calls answer, and however much the reads store. -/
theorem findInFlashArea_name_ends {σ : Type} (H : Handler flashApi σ) (s : σ) (faId : ℤ)
    (prior : FwImageHwRev) {r : FwImageHwRev}
    (hrun : ((fwImgHwRevFindInFlashArea T faId prior).run H s).1 = some (true, r)) :
    r.hwRevName.toCString.strlen < fwInfoHwRevNameMaxLen + 1 := by
  have h := (findInFlashArea_nameEnds (T := T) faId prior).run H s
  rw [hrun] at h
  have hreset : prior.reset.hwRevName.Terminated := Buf.terminated_set_zero (by decide)
  exact Buf.terminated_iff_strlen_lt.mp (NameEnds.ok h rfl hreset)

/-- A revision whose array holds no NUL. -/
def fullOfLetters : FwImageHwRev := ⟨0, ⟨List.replicate 16 65, by decide⟩⟩

/-- A name of one letter, read into an array full of letters, ends behind the first one. -/
theorem findInFlashArea_name_ends_sample :
    ∃ r, ((fwImgHwRevFindInFlashArea sampleTypes 1 fullOfLetters).run
        (Prog.handler (FlashArea.ofBytes twoHalves)) ()).1 = some (true, r) ∧
      r.hwRevName.toCString.strlen < fwInfoHwRevNameMaxLen + 1 :=
  have hrun : ((fwImgHwRevFindInFlashArea sampleTypes 1 fullOfLetters).run
      (Prog.handler (FlashArea.ofBytes twoHalves)) ()).1 =
        some (true, ⟨7, fullOfLetters.hwRevName.set 1 0⟩) := by decide
  ⟨_, hrun, findInFlashArea_name_ends _ _ _ _ hrun⟩

theorem fwImgGetImageInfo_relates_name (ids : FlashAreaIds) (fwImgId : FwImgId)
    (out : ImageInfoOut) :
    (fwImgGetImageInfo T ids fwImgId out).Relates fun es res => ∀ out' r,
      res = some (true, out') → out'.pHwRev = some r → ReadsFit (es.filterMap Event.left?) →
        r.hwRevName.LastNul := by
  unfold fwImgGetImageInfo
  apply (Prog.relates_true _).bind
  intro es slot _
  cases slot with
  | none => exact nofun
  | some slot =>
    apply (findInFlashArea_nameEnds slot.faId ⟨0, .zero _⟩).inl.bind
    intro es₁ res hres
    refine Prog.relates_pure fun out' r hout hr hfit => ?_
    cases res with
    | none => exact nomatch hout
    | some res =>
      obtain rfl : out.store slot res.2 = out' := (Prod.ext_iff.mp (Option.some.inj hout)).2
      obtain ⟨-, -, rfl⟩ := Option.map_eq_some_iff.mp hr
      rw [List.append_nil, List.filterMap_append] at hfit
      have hzero : (FwImageHwRev.reset ⟨0, .zero _⟩).hwRevName.LastNul := by decide
      exact NameEnds.lastNul hres hfit.right hzero

/-- A name that `fw_img_get_image_info` hands out ends inside its array, also when the scan has
failed half-way through it, as long as no read stores more than it has been asked for. -/
theorem fwImgGetImageInfo_name_ends {σ : Type} {ids : FlashAreaIds} {fwImgId : FwImgId}
    {out out' : ImageInfoOut} {r : FwImageHwRev} (H : Handler imageInfoApi σ) (s : σ)
    (hrun : ((fwImgGetImageInfo T ids fwImgId out).run H s).1 = some (true, out'))
    (hr : out'.pHwRev = some r)
    (hfit : ReadsFit (((fwImgGetImageInfo T ids fwImgId out).trace H s).filterMap Event.left?)) :
    r.hwRevName.toCString.strlen < fwInfoHwRevNameMaxLen + 1 :=
  Buf.terminated_iff_strlen_lt.mp
    ((fwImgGetImageInfo_relates_name ids fwImgId out).run H s out' r hrun hr hfit).terminated

/-- A slot in which reading the name fails behind its first letter. -/
def slotFailingInName : Oracle imageInfoApi
  | .inl (.flashAreaRead _ 1) => ⟨-5, [65]⟩
  | c => slotOfBytes twoHalves c

/-- What has been read of the name is stored, and ends inside the array. -/
theorem fwImgGetImageInfo_name_ends_sample :
    ∃ out' r, ((fwImgGetImageInfo sampleTypes sampleIds .app sampleOut).run
        (Prog.handler slotFailingInName) ()).1 = some (true, out') ∧
      out'.pHwRev = some r ∧ r.hwRevName.toCString.strlen < fwInfoHwRevNameMaxLen + 1 :=
  have hrun : ((fwImgGetImageInfo sampleTypes sampleIds .app sampleOut).run
      (Prog.handler slotFailingInName) ()).1 =
        some (true,
          ⟨some ⟨1, 2, 3, 4⟩, some (some 0x8200), some ⟨7, (Buf.zero _).write [65]⟩⟩) := by
    decide
  have hfit : ReadsFit (((fwImgGetImageInfo sampleTypes sampleIds .app sampleOut).trace
      (Prog.handler slotFailingInName) ()).filterMap Event.left?) := by
    decide
  ⟨_, _, hrun, rfl, fwImgGetImageInfo_name_ends _ _ hrun rfl hfit⟩

end

end FwLoader.Image
