/-!
Log lines as values: an operation says what it would log and the caller decides where it goes.
-/

namespace KernelMaps

inductive LogLevel where
  | debug
  | info
  | warn
  deriving DecidableEq

def LogLevel.name : LogLevel → String
  | debug => "DEBUG"
  | info => "INFO"
  | warn => "WARN"

structure LogLine where
  level : LogLevel
  text : String
  deriving DecidableEq

namespace LogLine

def debug (text : String) : LogLine := ⟨.debug, text⟩

def info (text : String) : LogLine := ⟨.info, text⟩

def warn (text : String) : LogLine := ⟨.warn, text⟩

def render (line : LogLine) : String :=
  s!"{line.level.name} {line.text}"

end LogLine

end KernelMaps
