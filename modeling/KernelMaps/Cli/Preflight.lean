import KernelMaps.Log
import KernelMaps.Text.Numeral
import KernelMaps.Text.Path

/-!
What is checked before any map is touched: the user, the kernel and the path, in this order.
-/

namespace KernelMaps.Cli

inductive PreflightFault where
  | notPrivileged
  | oldKernel (major minor : Nat) (release : String)
  | noSuchPin (path : String)
  | pinIsDirectory (path : String)
  deriving DecidableEq

def pinRoot : String := "/sys/fs/bpf"

def oldestKernel : Nat × Nat := (4, 20)

def PreflightFault.message : PreflightFault → String
  | notPrivileged =>
      "Permission denied: bpftable requires root privileges to access eBPF maps.\n\n" ++
        "Run with: sudo bpftable ..."
  | oldKernel major minor release =>
      s!"Kernel version {major}.{minor} is too old.\n\n" ++
        s!"bpftable requires Linux {oldestKernel.1}.{oldestKernel.2} or newer.\n" ++
        s!"Current kernel: {release}"
  | noSuchPin path =>
      s!"Pinned map not found: {path}\n\n" ++
        s!"Maps are usually pinned below {pinRoot}; list them with: ls {pinRoot}"
  | pinIsDirectory path =>
      s!"Not a pinned map: {path}\n\n" ++
        "The path is a directory; point at the pinned map itself."

/-- The first two numbers of a kernel release. Only the second one may go on with other
characters. -/
def readRelease (release : List Char) : Option (Nat × Nat) :=
  match Text.splitAll '.' release with
  | first :: second :: _ => do
      let major ← (Text.readNatural 10 (bitRange 32 - 1) first).toOption
      let minor ← (Text.readNatural 10 (bitRange 32 - 1) (second.takeWhile Char.isDigit)).toOption
      return (major, minor)
  | _ => none

def releaseOf (version : String) : List Char :=
  (Text.words version.toList)[2]?.getD "unknown".toList

def effectiveUser? (status : String) : Option Nat :=
  match (Text.words status.toList).dropWhile fun word => word ≠ "Uid:".toList with
  | _ :: _ :: effective :: _ => (Text.readNatural 10 (bitRange 32 - 1) effective).toOption
  | _ => none

def checkUser (user : Nat) : Except PreflightFault Unit :=
  if user = 0 then .ok () else .error .notPrivileged

/-- A kernel whose release cannot be read is taken to be new enough. -/
def checkKernel (version : String) : Except PreflightFault Unit :=
  let release := releaseOf version
  match readRelease release with
  | none => .ok ()
  | some (major, minor) =>
      let (oldMajor, oldMinor) := oldestKernel
      if major < oldMajor ∨ major = oldMajor ∧ minor < oldMinor then
        .error (.oldKernel major minor (String.ofList release))
      else .ok ()

def checkPath (path : String) (found : Option Text.Node) :
    Except PreflightFault (List LogLine) :=
  match found with
  | none => .error (.noSuchPin path)
  | some .directory => .error (.pinIsDirectory path)
  | some .file =>
      if Text.isBelow pinRoot.toList path.toList then .ok []
      else .ok [.warn s!"{path} is outside {pinRoot}; is bpffs mounted there?"]

end KernelMaps.Cli
