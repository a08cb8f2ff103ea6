/-!
System error numbers with their C library texts, and failures of input and output in general.
-/

namespace KernelMaps

structure Errno where
  number : Nat
  deriving DecidableEq

namespace Errno

def notPermitted : Errno := ⟨1⟩
def noEntry : Errno := ⟨2⟩
def tooBig : Errno := ⟨7⟩
def badFile : Errno := ⟨9⟩
def noMemory : Errno := ⟨12⟩
def accessDenied : Errno := ⟨13⟩
def alreadyThere : Errno := ⟨17⟩
def invalid : Errno := ⟨22⟩
def notImplemented : Errno := ⟨38⟩
def notSupported : Errno := ⟨95⟩

def text (errno : Errno) : String :=
  match errno.number with
  | 1 => "Operation not permitted"
  | 2 => "No such file or directory"
  | 4 => "Interrupted system call"
  | 5 => "Input/output error"
  | 7 => "Argument list too long"
  | 9 => "Bad file descriptor"
  | 11 => "Resource temporarily unavailable"
  | 12 => "Cannot allocate memory"
  | 13 => "Permission denied"
  | 14 => "Bad address"
  | 16 => "Device or resource busy"
  | 17 => "File exists"
  | 19 => "No such device"
  | 22 => "Invalid argument"
  | 24 => "Too many open files"
  | 25 => "Inappropriate ioctl for device"
  | 28 => "No space left on device"
  | 38 => "Function not implemented"
  | 95 => "Operation not supported"
  | number => s!"Unknown error {number}"

def message (errno : Errno) : String :=
  s!"{errno.text} (os error {errno.number})"

end Errno

inductive IoError where
  | system (errno : Errno)
  | invalidData (text : String)
  | invalidInput (text : String)
  deriving DecidableEq

namespace IoError

def message : IoError → String
  | system errno => errno.message
  | invalidData text => text
  | invalidInput text => text

def errno? : IoError → Option Errno
  | system errno => some errno
  | _ => none

end IoError

end KernelMaps
