import FwLoader.Image.Printing
import FwLoader.Image.Signed
import FwLoader.Version.BuildType

/-!
# The shell command for the versions

`cmd_ruuvi_version_info` finds out about the four slots one after the other and prints what it has
found, each time into the same variables. It ends with an error at the first slot that nothing can
be found out about. `transcript` is what a reader of the shell should see, written down without the
flash and without variables; the command on a flash with several areas prints exactly that.
-/

namespace FwLoader.Shell

open Foundations Image Version

/-! ## The program -/

/-- The calls of the shell. -/
inductive ShellCall
  | shellPrint (line : CString)
  | shellError (line : CString)
deriving DecidableEq

abbrev shellApi : Interface where
  Call := ShellCall
  Answer _ := Unit

/-- The calls that the command makes. -/
abbrev shellCmdApi : Interface := imageInfoApi.sum shellApi

def shellPrint (line : CString) : Prog shellCmdApi Unit :=
  @Prog.perform shellCmdApi (.inr (.shellPrint line))

def shellError (line : CString) : Prog shellCmdApi Unit :=
  @Prog.perform shellCmdApi (.inr (.shellError line))

/-- `EINVAL` -/
def einval : ℤ := 22

section

variable (T : RuuviTlvTypes) (ids : FlashAreaIds)

/-- A call of `fw_img_get_image_info`, with the return that follows when it fails. -/
def getImageInfoOrFail (fwImgId : FwImgId) (vars : InfoVars) :
    Prog shellCmdApi (InfoVars ⊕ Option ℤ) := do
  let res ← (fwImgGetImageInfo T ids fwImgId vars.out).inl
  match res with
  | none => pure (.inr none)
  | some (ok, out) =>
    if ok = false then do
      shellError (.lit "Failed to get firmware image info")
      pure (.inr (some (-einval)))
    else
      pure (.inl (vars.after out))

/-- `cmd_ruuvi_version_info`, with the version that `fwloader_fw_ver_get` returns: the result, or
`none` if it has none. -/
def cmdRuuviVersionInfo (versionStr : CString) : Prog shellCmdApi (Option ℤ) :=
  match isProd versionStr with
  | none => pure none
  | some isProd => do
    let res : Unit ⊕ Option ℤ ←
      (getImageInfoOrFail T ids .app .zero).goOn fun vars => do
        shellPrint (.lit "Hardware revision: " ++ vars.hwRev.hwRevName.toCString)
        shellPrint (.lit "Build type: " ++ if isProd then .lit "production" else .lit "development")
        shellPrint (.lit "App version: " ++ versionText vars.fwVer)
        (getImageInfoOrFail T ids .fwloader vars).goOn fun vars => do
          shellPrint (.lit "FwLoader version: " ++ versionText vars.fwVer)
          (getImageInfoOrFail T ids .mcuboot0 vars).goOn fun vars => do
            shellPrint (.lit "MCUBoot0 version: " ++ versionText vars.fwVer)
            (getImageInfoOrFail T ids .mcuboot1 vars).goOn fun vars => do
              shellPrint (.lit "MCUBoot1 version: " ++ versionText vars.fwVer)
              pure (.inl ())
    match res with
    | .inl () => pure (some 0)
    | .inr rc => pure rc

end

/-! ## What should be printed -/

/-- What is printed of a slot: its version, and the name of its revision. -/
structure SlotInfo where
  version : ImageVersion
  hwRevName : CString

/-- The lines about slots, each with its label, and the result: they end with an error at the first
slot that is missing. -/
def transcript (info : FwImgId → Option SlotInfo) :
    List (FwImgId × (SlotInfo → List CString)) → List ShellCall × ℤ
  | [] => ([], 0)
  | (fwImgId, lines) :: slots =>
    match info fwImgId with
    | none => ([.shellError (.lit "Failed to get firmware image info")], -einval)
    | some slot =>
      ((lines slot).map .shellPrint ++ (transcript info slots).1, (transcript info slots).2)

/-- The slots in the order of the command, with what it prints of each. -/
def versionSlots (isProduction : Bool) : List (FwImgId × (SlotInfo → List CString)) :=
  [(.app, fun slot =>
      [.lit "Hardware revision: " ++ slot.hwRevName,
        .lit "Build type: " ++ (if isProduction then .lit "production" else .lit "development"),
        .lit "App version: " ++ versionText slot.version]),
    (.fwloader, fun slot => [.lit "FwLoader version: " ++ versionText slot.version]),
    (.mcuboot0, fun slot => [.lit "MCUBoot0 version: " ++ versionText slot.version]),
    (.mcuboot1, fun slot => [.lit "MCUBoot1 version: " ++ versionText slot.version])]

/-! ## What is printed -/

/-- The calls of the shell among the calls of the command. -/
def shellCalls (es : List (Event shellCmdApi)) : List ShellCall :=
  es.filterMap fun e => e.call.getRight?

theorem shellCalls_append (es es' : List (Event shellCmdApi)) :
    shellCalls (es ++ es') = shellCalls es ++ shellCalls es' := List.filterMap_append

theorem shellCalls_map_inl (es : List (Event imageInfoApi)) :
    shellCalls (es.map Event.inl) = [] := by
  induction es with
  | nil => rfl
  | cons e es ih => exact ih

/-- A flash with several areas, and a shell that leaves it alone. -/
def withShell (F : Flash) : Handler shellCmdApi ℤ := F.handler.sum fun _ => ()

section

variable {T : RuuviTlvTypes} {ids : FlashAreaIds} {F : Flash}

variable (T ids F) in
/-- What there is to print of a slot of the flash: the version in its header, and the name that its
area tells. -/
def slotInfo (fwImgId : FwImgId) : Option SlotInfo :=
  (F.header ids fwImgId).map fun hdr =>
    ⟨hdr.ihVer, (F.revision T ids fwImgId).hwRevName.toCString⟩

/-- What the command returns when its last part does. -/
def exitCode : Unit ⊕ Option ℤ → Option ℤ
  | .inl () => some 0
  | .inr rc => rc

/-- From every state, a part of the command prints the lines `t.1` and the command returns `t.2`. -/
def Prints (F : Flash) (p : Prog shellCmdApi (Unit ⊕ Option ℤ)) (t : List ShellCall × ℤ) : Prop :=
  ∀ opened, exitCode (p.run (withShell F) opened).1 = some t.2 ∧
    shellCalls (p.trace (withShell F) opened) = t.1

theorem prints_end : Prints F (pure (.inl ())) ([], 0) := fun _ => ⟨rfl, rfl⟩

theorem Prints.shellPrint {p : Prog shellCmdApi (Unit ⊕ Option ℤ)} {shown : List ShellCall} {rc : ℤ}
    (h : Prints F p (shown, rc)) (line : CString) :
    Prints F (shellPrint line >>= fun _ => p) (.shellPrint line :: shown, rc) :=
  fun opened => ⟨(h opened).1, congrArg _ (h opened).2⟩

/-- A call of `fw_img_get_image_info` fails and ends the command, or leaves what there is to print
of the slot in the variables. -/
theorem run_getImageInfoOrFail (hF : F.Bounded) (fwImgId : FwImgId) (vars : InfoVars) (opened : ℤ) :
    (slotInfo T ids F fwImgId = none ∧
        ((getImageInfoOrFail T ids fwImgId vars).run (withShell F) opened).1 =
          .inr (some (-einval)) ∧
        shellCalls ((getImageInfoOrFail T ids fwImgId vars).trace (withShell F) opened) =
          [.shellError (.lit "Failed to get firmware image info")]) ∨
      ∃ slot vars', slotInfo T ids F fwImgId = some slot ∧
        ((getImageInfoOrFail T ids fwImgId vars).run (withShell F) opened).1 = .inl vars' ∧
        vars'.fwVer = slot.version ∧ vars'.hwRev.hwRevName.toCString = slot.hwRevName ∧
        shellCalls ((getImageInfoOrFail T ids fwImgId vars).trace (withShell F) opened) = [] := by
  have hleft : (withShell F).left = F.handler := Handler.left_sum _ _
  have hrun := @Flash.run_fwImgGetImageInfo_eq F T ids hF fwImgId vars.out opened
  rw [getImageInfoOrFail, Prog.run_bind, Prog.trace_bind, shellCalls_append, Prog.run_inl,
    Prog.trace_inl, shellCalls_map_inl, hleft, hrun, slotInfo, Flash.report]
  rcases F.header ids fwImgId with _ | hdr
  · exact .inl ⟨rfl, rfl, rfl⟩
  · exact .inr ⟨_, _, rfl, rfl, rfl, rfl, rfl⟩

/-- The part of the command from a call of `fw_img_get_image_info` on. -/
theorem prints_slot (hF : F.Bounded) {fwImgId : FwImgId} {vars : InfoVars}
    {lines : SlotInfo → List CString} {slots : List (FwImgId × (SlotInfo → List CString))}
    {f : InfoVars → Prog shellCmdApi (Unit ⊕ Option ℤ)}
    (hf : ∀ vars : InfoVars, Prints F (f vars)
      ((lines ⟨vars.fwVer, vars.hwRev.hwRevName.toCString⟩).map .shellPrint ++
        (transcript (slotInfo T ids F) slots).1, (transcript (slotInfo T ids F) slots).2)) :
    Prints F ((getImageInfoOrFail T ids fwImgId vars).goOn f)
      (transcript (slotInfo T ids F) ((fwImgId, lines) :: slots)) := by
  intro opened
  rw [Prog.goOn, Prog.run_bind, Prog.trace_bind, shellCalls_append, transcript]
  rcases @run_getImageInfoOrFail T ids F hF fwImgId vars opened with
    ⟨hinfo, hrun, hcalls⟩ | ⟨⟨version, name⟩, vars', hinfo, hrun, hver, hname, hcalls⟩
  · rw [hinfo, hrun, hcalls]
    exact ⟨rfl, rfl⟩
  · obtain rfl : vars'.fwVer = version := hver
    obtain rfl : vars'.hwRev.hwRevName.toCString = name := hname
    rw [hinfo, hrun, hcalls]
    exact hf vars' _

variable (T ids F) in
/-- What the command should print, and its result. -/
def versionInfoShown (versionStr : CString) : List ShellCall × ℤ :=
  transcript (slotInfo T ids F) (versionSlots (decide (prodSuffix.bytes <:+ versionStr.bytes)))

theorem run_cmdRuuviVersionInfo (hF : F.Bounded) (versionStr : CString) (opened : ℤ) :
    (((cmdRuuviVersionInfo T ids versionStr).run (withShell F) opened).1,
        shellCalls ((cmdRuuviVersionInfo T ids versionStr).trace (withShell F) opened)) =
      (some (versionInfoShown T ids F versionStr).2, (versionInfoShown T ids F versionStr).1) := by
  have hexit : ∀ (p : Prog shellCmdApi (Unit ⊕ Option ℤ)) (t : List ShellCall × ℤ), Prints F p t →
      (((p >>= fun res => match res with
          | .inl () => pure (some 0)
          | .inr rc => pure rc).run (withShell F) opened).1,
        shellCalls ((p >>= fun res => match res with
          | .inl () => pure (some 0)
          | .inr rc => pure rc).trace (withShell F) opened)) = (some t.2, t.1) := by
    intro p t hp
    obtain ⟨hcode, hlines⟩ := hp opened
    rw [Prog.run_bind, Prog.trace_bind, shellCalls_append, hlines, ← hcode]
    rcases (p.run (withShell F) opened).1 with _ | rc
    · exact congrArg (some 0, ·) (List.append_nil _)
    · exact congrArg (rc, ·) (List.append_nil _)
  rw [cmdRuuviVersionInfo, isProd_eq, versionInfoShown]
  generalize decide (prodSuffix.bytes <:+ versionStr.bytes) = isProduction
  apply hexit
  -- one slot after the other, each with its lines
  refine prints_slot hF fun vars => ?_
  refine Prints.shellPrint (Prints.shellPrint (Prints.shellPrint ?_ _) _) _
  refine prints_slot hF fun vars => Prints.shellPrint ?_ _
  refine prints_slot hF fun vars => Prints.shellPrint ?_ _
  exact prints_slot hF fun vars => Prints.shellPrint prints_end _

/-- On a flash with several areas, the command prints of each slot what its own header and its own
area tell, up to the first slot that is missing. -/
theorem cmdRuuviVersionInfo_prints (hF : F.Bounded) (versionStr : CString) (opened : ℤ) :
    ((cmdRuuviVersionInfo T ids versionStr).run (withShell F) opened).1 =
        some (versionInfoShown T ids F versionStr).2 ∧
      shellCalls ((cmdRuuviVersionInfo T ids versionStr).trace (withShell F) opened) =
        (versionInfoShown T ids F versionStr).1 :=
  Prod.mk.inj (run_cmdRuuviVersionInfo hF versionStr opened)

theorem slotInfo_signed {fwImgId : FwImgId} {I : SignedImage T} (hF : F.Bounded)
    (h : F.HoldsImage ids fwImgId I) :
    slotInfo T ids F fwImgId = some ⟨I.hdr.ihVer, I.hwRev.name⟩ := by
  rw [slotInfo, Flash.header_signed h, Option.map_some, (Flash.revision_signed hF h).2]

/-- The slots that the command asks about. -/
def shownSlots : List FwImgId := [.app, .fwloader, .mcuboot0, .mcuboot1]

/-- On a flash with a signed image in each slot the command succeeds, and prints the version of each
and the hardware revision of the application. -/
theorem cmdRuuviVersionInfo_signed {images : FwImgId → SignedImage T} (hF : F.Bounded)
    (himages : ∀ fwImgId ∈ shownSlots, F.HoldsImage ids fwImgId (images fwImgId))
    (versionStr : CString) (opened : ℤ) :
    ((cmdRuuviVersionInfo T ids versionStr).run (withShell F) opened).1 = some 0 ∧
      shellCalls ((cmdRuuviVersionInfo T ids versionStr).trace (withShell F) opened) =
        [.shellPrint (.lit "Hardware revision: " ++ (images .app).hwRev.name),
          .shellPrint (.lit "Build type: " ++ if decide (prodSuffix.bytes <:+ versionStr.bytes) then
            .lit "production" else .lit "development"),
          .shellPrint (.lit "App version: " ++ versionText (images .app).hdr.ihVer),
          .shellPrint (.lit "FwLoader version: " ++ versionText (images .fwloader).hdr.ihVer),
          .shellPrint (.lit "MCUBoot0 version: " ++ versionText (images .mcuboot0).hdr.ihVer),
          .shellPrint (.lit "MCUBoot1 version: " ++ versionText (images .mcuboot1).hdr.ihVer)] := by
  have hinfo : ∀ fwImgId ∈ shownSlots, slotInfo T ids F fwImgId =
      some ⟨(images fwImgId).hdr.ihVer, (images fwImgId).hwRev.name⟩ :=
    fun fwImgId hshown => slotInfo_signed hF (himages fwImgId hshown)
  obtain ⟨hrun, hcalls⟩ := Prod.mk.inj (@run_cmdRuuviVersionInfo T ids F hF versionStr opened)
  rw [hrun, hcalls, versionInfoShown]
  simp only [versionSlots, transcript, hinfo .app (by decide), hinfo .fwloader (by decide),
    hinfo .mcuboot0 (by decide), hinfo .mcuboot1 (by decide), true_and]
  rfl

end

/-- The lines about two slots with images of different versions, and the error about the third one,
which is missing. -/
theorem cmdRuuviVersionInfo_prints_sample :
    ((cmdRuuviVersionInfo sampleTypes sampleIds (.lit "1.0.0")).run (withShell (.without 3)) 0).1 =
        some (-22) ∧
      shellCalls ((cmdRuuviVersionInfo sampleTypes sampleIds (.lit "1.0.0")).trace
        (withShell (.without 3)) 0) =
          [.shellPrint (.lit "Hardware revision: A"), .shellPrint (.lit "Build type: development"),
            .shellPrint (.lit "App version: 2.0.0+1"),
            .shellPrint (.lit "FwLoader version: 1.2.3+4"),
            .shellError (.lit "Failed to get firmware image info")] := by
  obtain ⟨hrun, hcalls⟩ := cmdRuuviVersionInfo_prints (T := sampleTypes) (Flash.without_bounded 3)
    (.lit "1.0.0") 0
  exact ⟨hrun.trans (by decide), hcalls.trans (by decide)⟩

/-- The lines about four slots with images of different versions, of a production build. -/
theorem cmdRuuviVersionInfo_signed_sample :
    ((cmdRuuviVersionInfo sampleTypes sampleIds (.lit "1.0.0-prod")).run
        (withShell signedFlash) 0).1 = some 0 ∧
      shellCalls ((cmdRuuviVersionInfo sampleTypes sampleIds (.lit "1.0.0-prod")).trace
        (withShell signedFlash) 0) =
          [.shellPrint (.lit "Hardware revision: A"), .shellPrint (.lit "Build type: production"),
            .shellPrint (.lit "App version: 2.0.0+1"),
            .shellPrint (.lit "FwLoader version: 1.2.3+4"),
            .shellPrint (.lit "MCUBoot0 version: 3.1.0+7"),
            .shellPrint (.lit "MCUBoot1 version: 3.1.0+8")] := by
  have himages : ∀ fwImgId ∈ shownSlots, signedFlash.HoldsImage sampleIds fwImgId
      (sampleSigned (slotVersion (faIdFromFwImgId sampleIds fwImgId))) := by
    intro fwImgId hshown
    refine signedFlash_holdsImage ?_
    revert fwImgId
    decide
  obtain ⟨hrun, hcalls⟩ := cmdRuuviVersionInfo_signed signedFlash_bounded himages
    (.lit "1.0.0-prod") 0
  exact ⟨hrun, hcalls.trans (by decide)⟩

/-! ## The areas that the command opens -/

section

variable {T : RuuviTlvTypes} {ids : FlashAreaIds} {α : Type}

/-- A part of the command that opens areas only if it closes them again. -/
abbrev KeepsClosed (p : Prog shellCmdApi α) : Prop :=
  Prog.Follows ((slotProtocol fun _ => true).sum .free) (fun _ q => q = none) none p

theorem keepsClosed_shellPrint_bind {p : Prog shellCmdApi α} (h : KeepsClosed p) (line : CString) :
    KeepsClosed (shellPrint line >>= fun _ => p) := fun _ => ⟨none, rfl, h⟩

theorem keepsClosed_getImageInfoOrFail (fwImgId : FwImgId) (vars : InfoVars) :
    KeepsClosed (getImageInfoOrFail T ids fwImgId vars) := by
  unfold getImageInfoOrFail
  have hcloses : ClosesAreas (fun _ => true) (fwImgGetImageInfo T ids fwImgId vars.out) :=
    closesAreas_fwImgGetImageInfo rfl vars.out
  have hinfo : KeepsClosed (fwImgGetImageInfo T ids fwImgId vars.out).inl := hcloses.inl
  apply hinfo.bind_eq
  intro res
  rcases res with _ | ⟨ok, out⟩
  · exact rfl
  · exact Prog.Follows.ite (fun _ _ => ⟨none, rfl, rfl⟩) fun _ => rfl

theorem keepsClosed_goOn {β γ δ : Type} {p : Prog shellCmdApi (β ⊕ γ)}
    {f : β → Prog shellCmdApi (δ ⊕ γ)} (h : KeepsClosed p) (hf : ∀ b, KeepsClosed (f b)) :
    KeepsClosed (p.goOn f) := by
  apply h.bind_eq
  rintro (b | c)
  · exact hf b
  · exact rfl

theorem keepsClosed_cmdRuuviVersionInfo (versionStr : CString) :
    KeepsClosed (cmdRuuviVersionInfo T ids versionStr) := by
  rw [cmdRuuviVersionInfo, isProd_eq]
  refine Prog.Follows.bind_eq (keepsClosed_goOn (keepsClosed_getImageInfoOrFail _ _) ?_) ?_
  · refine fun vars => keepsClosed_shellPrint_bind (keepsClosed_shellPrint_bind
      (keepsClosed_shellPrint_bind (keepsClosed_goOn (keepsClosed_getImageInfoOrFail _ _) ?_) _) _) _
    refine fun vars => keepsClosed_shellPrint_bind
      (keepsClosed_goOn (keepsClosed_getImageInfoOrFail _ _) ?_) _
    refine fun vars => keepsClosed_shellPrint_bind
      (keepsClosed_goOn (keepsClosed_getImageInfoOrFail _ _) ?_) _
    exact fun vars => keepsClosed_shellPrint_bind (Prog.Follows.pure rfl) _
  · rintro (_ | rc)
    · exact rfl
    · exact rfl

/-- Whatever the flash answers, the command closes each flash area that it has opened before it
opens the next one and before it returns, and uses no area that is not open. -/
theorem cmdRuuviVersionInfo_wellBracketed {σ : Type} (versionStr : CString)
    (H : Handler shellCmdApi σ) (s : σ) :
    WellBracketed (((cmdRuuviVersionInfo T ids versionStr).trace H s).filterMap Event.left?) := by
  have hkeeps : KeepsClosed (cmdRuuviVersionInfo T ids versionStr) :=
    keepsClosed_cmdRuuviVersionInfo versionStr
  obtain ⟨q, hexec, rfl⟩ := hkeeps.run H s
  rw [Protocol.exec_sum_free] at hexec
  exact wellBracketed_of_exec hexec

end

end FwLoader.Shell
