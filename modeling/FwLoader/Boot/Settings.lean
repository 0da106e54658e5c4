import FwLoader.Boot.FirmwareVersion

/-!
# The device information

`settings_runtime_load` hands the texts of the Bluetooth device information service to the settings.
The version is formatted into an array of a size known at compile time, and the name of the hardware
revision comes from the image that the loader has booted from.
-/

namespace FwLoader.Boot

open Foundations Image

/-- `settings_runtime_set`, with the bytes that it is handed. -/
inductive SettingsCall
  | settingsRuntimeSet (name : CString) (data : List UInt8)
deriving DecidableEq

abbrev settingsApi : Interface where
  Call := SettingsCall
  Answer _ := ℤ

def settingsRuntimeSet (name : CString) (data : List UInt8) : Prog settingsApi ℤ :=
  @Prog.perform settingsApi (.settingsRuntimeSet name data)

/-- A string with its NUL: `strlen(s) + 1` bytes. -/
def withNul (s : CString) : List UInt8 := s.bytes ++ [0]

/-- `CONFIG_BT_DEVICE_NAME` -/
def configBtDeviceName : CString := .lit "RuuviAir"

/-- `CONFIG_BT_DIS_MODEL` -/
def configBtDisModel : CString := .lit "Ruuvi Air"

/-- `CONFIG_BT_DIS_MANUF` -/
def configBtDisManuf : CString := .lit "Ruuvi Innovations Ltd"

/-- `CONFIG_BT_DIS_SERIAL_NUMBER_STR` -/
def configBtDisSerialNumberStr : CString := .lit "XX:XX:XX:XX:XX:XX:XX:XX"

variable {build : Build}

/-- `sizeof(fw_ver_str)` -/
def fwVerStrSize (build : Build) : ℕ :=
  (configBtDeviceName.strlen + 1) + 2 + (build.appVersionExtendedString.strlen + 1)

/-- `settings_runtime_load`. `fw_ver_str` is not initialised. -/
def settingsRuntimeLoad (fwVerStr : Buf (fwVerStrSize build)) (g : FwVer build) :
    Prog settingsApi Unit := do
  let _ ← settingsRuntimeSet (.lit "bt/dis/model") (withNul configBtDisModel)
  let _ ← settingsRuntimeSet (.lit "bt/dis/manuf") (withNul configBtDisManuf)
  let _ ← settingsRuntimeSet (.lit "bt/dis/serial") (withNul configBtDisSerialNumberStr)
  let fwVerStr := fwVerStr.snprintf (configBtDeviceName ++ .lit " v" ++ g.fwloaderFwVerGet)
  let _ ← settingsRuntimeSet (.lit "bt/dis/fw") (withNul fwVerStr.toCString)
  let _ ← settingsRuntimeSet (.lit "bt/dis/hw") (withNul g.fwloaderHwRevGet)
  pure ()

/-- `fwloader_settings_init`, whose result does not depend on the settings. -/
def fwloaderSettingsInit (fwVerStr : Buf (fwVerStrSize build)) (g : FwVer build) :
    Prog settingsApi Bool := do
  settingsRuntimeLoad fwVerStr g
  pure true

/-- The device information about a firmware version and a hardware revision. -/
def deviceInformation (fwVer hwRev : CString) : List SettingsCall :=
  [.settingsRuntimeSet (.lit "bt/dis/model") (withNul configBtDisModel),
    .settingsRuntimeSet (.lit "bt/dis/manuf") (withNul configBtDisManuf),
    .settingsRuntimeSet (.lit "bt/dis/serial") (withNul configBtDisSerialNumberStr),
    .settingsRuntimeSet (.lit "bt/dis/fw") (withNul (.lit "RuuviAir v" ++ fwVer)),
    .settingsRuntimeSet (.lit "bt/dis/hw") (withNul hwRev)]

/-- The version is not cut short where it is formatted. -/
theorem fwloaderSettingsInit_relates {g : FwVer build}
    (hlen : g.fwloaderFwVerGet.strlen = build.appVersionExtendedString.strlen)
    (fwVerStr : Buf (fwVerStrSize build)) :
    (fwloaderSettingsInit fwVerStr g).Relates fun es _ =>
      es.map Event.call = deviceInformation g.fwloaderFwVerGet g.fwloaderHwRevGet := by
  have htext : configBtDeviceName ++ .lit " v" ++ g.fwloaderFwVerGet =
      .lit "RuuviAir v" ++ g.fwloaderFwVerGet := CString.ext rfl
  have hlit : (CString.lit "RuuviAir v").strlen = 10 := by decide
  have hname : configBtDeviceName.strlen = 8 := by decide
  have hfits : (CString.lit "RuuviAir v" ++ g.fwloaderFwVerGet).strlen < fwVerStrSize build := by
    rw [CString.strlen_append, hlit, hlen, fwVerStrSize, hname]
    omega
  have hfull : (fwVerStr.snprintf (configBtDeviceName ++ .lit " v" ++ g.fwloaderFwVerGet)).toCString =
      .lit "RuuviAir v" ++ g.fwloaderFwVerGet := by
    rw [htext, Buf.toCString_snprintf_of_lt hfits]
  unfold deviceInformation
  rw [← hfull]
  exact fun _ _ _ _ _ => rfl

section

variable {T : RuuviTlvTypes} {ids : FlashAreaIds} {F : Flash} {fwInfoVer : FwInfoPtr → UInt32}

/-- A loader that boots from a signed image hands the version that it has been built as and the
hardware revision that the image has been signed with to the settings, each in full. -/
theorem settings_of_signed {σ : Type} {I : SignedImage T} (hF : F.Bounded)
    (hI : F.HoldsImage ids .fwloader I) (expectedVersionStr : Buf 32)
    (fwVerStr : Buf (fwVerStrSize build)) (opened : ℤ) (H : Handler settingsApi σ) (s : σ) :
    ∃ g fwVer, ((fwloaderFwVerInit build T ids expectedVersionStr).run
        (withLog F fwInfoVer) opened).1 = some g ∧
      Version.Moved build.appVersionExtendedString fwVer ∧
      ((fwloaderSettingsInit fwVerStr g).trace H s).map Event.call =
        deviceInformation fwVer I.hwRev.name := by
  obtain ⟨gFwVerBuf, hbuf, hlen, hmoved⟩ := exists_fwVerBuf build.appVersionExtendedString
  obtain ⟨hrun, -⟩ := @run_fwloaderFwVerInit build T ids F fwInfoVer hF expectedVersionStr opened
    gFwVerBuf hbuf
  have hinfo : loaderInfo T ids F = (I.hdr.ihVer, F.revision T ids .fwloader) := by
    rw [loaderInfo, Flash.header_signed hI]
    rfl
  rw [hinfo] at hrun
  let g : FwVer build := ⟨gFwVerBuf, I.hdr.ihVer, F.revision T ids .fwloader⟩
  have hhwRev : g.fwloaderHwRevGet = I.hwRev.name := by
    obtain ⟨-, hname⟩ := Flash.revision_signed hF hI
    have hfirst : (F.revision T ids .fwloader).hwRevName.first ≠ 0 := by
      rw [Ne, ← Buf.cStr_eq_nil_iff]
      intro hnil
      have hempty : I.hwRev.name.bytes = [] := (congrArg CString.bytes hname).symm.trans hnil
      exact I.hwRev.name_pos.ne' (congrArg List.length hempty)
    rw [FwVer.fwloaderHwRevGet, if_neg hfirst, hname]
  refine ⟨g, g.fwloaderFwVerGet, hrun, hmoved, ?_⟩
  rw [(@fwloaderSettingsInit_relates build g hlen fwVerStr).run, hhwRev]

end

/-- The device information of the sample build on the sample image. -/
theorem settings_of_signed_sample :
    ∃ g fwVer, ((fwloaderFwVerInit sampleBuild sampleTypes sampleIds (.zero 32)).run
        (withLog signedFlash fun _ => 1) 0).1 = some g ∧
      Version.Moved sampleBuild.appVersionExtendedString fwVer ∧
      ((fwloaderSettingsInit (.zero (fwVerStrSize sampleBuild)) g).trace
        (Prog.handler fun _ => (0 : ℤ)) ()).map Event.call =
          deviceInformation fwVer sampleRevision.name :=
  settings_of_signed signedFlash_bounded (signedFlash_holdsImage (by decide)) _ _ 0 _ ()

end FwLoader.Boot
