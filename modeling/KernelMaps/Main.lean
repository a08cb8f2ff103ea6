import KernelMaps.Cli.Run

/-!
The program. It reads off its machine what a run depends on. The maps of the kernel are out of its
reach, so every pin that is there refuses to be opened.
-/

namespace KernelMaps.Cli

def nodeAt? (path : String) : IO (Option Text.Node) := do
  try
    let place ← IO.FS.realPath path
    return some (if ← place.isDir then .directory else .file)
  catch _ => return none

def unreachablePin (path : String) : PinnedMap where
  pin := {
    path
    facts := ⟨0, 0, 0, 0, []⟩
    opening := some .notImplemented }
  backend := .ofStore (.empty .hash 0)

def thisMachine (path : String) : IO Machine := do
  let user := effectiveUser? (← IO.FS.readFile "/proc/self/status")
  let version ← IO.FS.readFile "/proc/version"
  let found ← nodeAt? path
  return {
    user := user.getD 65534
    version
    node? := fun asked => if asked = path then found else none
    online := .error .notImplemented
    possibleCpus := 1
    maps := [unreachablePin path] }

def runHere (words : List String) : IO UInt32 := do
  match parse words with
  | .error fault =>
      IO.eprintln fault.message
      return UInt32.ofNat fault.exitCode
  | .ok command =>
      let (ending, _) := runCommand command (← thisMachine command.path)
      IO.print ending.printed.out
      IO.eprint ending.printed.error
      return UInt32.ofNat ending.exit

end KernelMaps.Cli

def main (words : List String) : IO UInt32 :=
  KernelMaps.Cli.runHere words
