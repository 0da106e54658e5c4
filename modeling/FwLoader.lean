import FwLoader.Foundations.Bytes
import FwLoader.Foundations.Effects
import FwLoader.Foundations.Tlv
import FwLoader.Image.Layout
import FwLoader.Image.FlashScan
import FwLoader.Image.FileScan
import FwLoader.Image.Revision
import FwLoader.Image.Round
import FwLoader.Image.FlashWalk
import FwLoader.Image.Decoding
import FwLoader.Image.Confinement
import FwLoader.Image.FileWalk
import FwLoader.Image.Agreement
import FwLoader.Image.Truncation
import FwLoader.Foundations.Contracts
import FwLoader.Foundations.Interfaces
import FwLoader.Foundations.Triples
import FwLoader.Image.Bounds
import FwLoader.Image.Admission
import FwLoader.Image.Duplicates
import FwLoader.Image.ImageInfo
import FwLoader.Foundations.Transition
import FwLoader.Foundations.FairRuns
import FwLoader.Foundations.Protocols
import FwLoader.Foundations.Interleaving
import FwLoader.Foundations.Rely
import FwLoader.Image.Areas
import FwLoader.Image.Contents
import FwLoader.Image.Slots
import FwLoader.Upload.Monitor
import FwLoader.Upload.Activity
import FwLoader.Upload.Timeout
import FwLoader.Foundations.CString
import FwLoader.Mgmt.Callbacks
import FwLoader.Mgmt.Startup
import FwLoader.Mgmt.Uploads
import FwLoader.Foundations.WorkQueue
import FwLoader.Threads.Device
import FwLoader.Threads.Interference
import FwLoader.Threads.Reset
import FwLoader.Threads.Light
import FwLoader.Threads.LinkLeds
import FwLoader.Threads.ButtonLeds
import FwLoader.Threads.Fairness
import FwLoader.Threads.Mutex
import FwLoader.Threads.Progress
import FwLoader.Threads.Liveness
import FwLoader.Threads.PowerOff
import FwLoader.Foundations.CMemory
import FwLoader.Version.Semver
import FwLoader.Version.BuildType
import FwLoader.Foundations.Formats
import FwLoader.Image.Names
import FwLoader.Foundations.Records
import FwLoader.Foundations.Scripts
import FwLoader.Image.Signed
import FwLoader.Image.Printing
import FwLoader.Boot.FirmwareVersion
import FwLoader.Boot.Settings
import FwLoader.Boot.Supercap
import FwLoader.Shell.VersionInfo
import FwLoader.Halt.ErrorScreen
import FwLoader.Halt.Blinking
import FwLoader.Bluetooth.RadioAddress
import FwLoader.Main.RgbLed
import FwLoader.Main.Reboot
import FwLoader.Main.Loop
import FwLoader.Main.Clock
import FwLoader.Main.Polls
import FwLoader.Threads.Programs
import FwLoader.Threads.Refinement
