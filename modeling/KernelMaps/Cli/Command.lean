import KernelMaps.Codec
import KernelMaps.Perf.Buffer

/-!
The commands of the command line, as what is asked for and not how it was written.
-/

namespace KernelMaps.Cli

inductive Format where
  | hex
  | uint
  | int
  deriving DecidableEq

namespace Format

def all : List Format := [hex, uint, int]

def name : Format → String
  | hex => "hex"
  | uint => "uint"
  | int => "int"

def ofName? (name : String) : Option Format :=
  all.find? fun format => format.name == name

def codec : Format → Codec
  | hex => Codec.hex
  | uint => Codec.integer false
  | int => Codec.integer true

end Format

structure MapArguments where
  path : String
  keyFormat : Format := .hex
  valueFormat : Format := .hex
  deriving DecidableEq

/-- How a perf event array is watched; no duration is without end. -/
structure WatchArguments where
  path : String
  pages : Nat := 8
  wakeup : Option UInt32 := none
  duration : Nat := 0
  quiet : Bool := false
  deriving DecidableEq

inductive Command where
  | info (map : MapArguments) (json : Bool)
  | dump (map : MapArguments) (json : Bool)
  | get (map : MapArguments) (key : String)
  | update (map : MapArguments) (key : String) (values : List String)
  | delete (map : MapArguments) (key : String)
  | clear (map : MapArguments)
  | watch (arguments : WatchArguments)
  deriving DecidableEq

def Command.path : Command → String
  | info map _ | dump map _ | get map _ | update map _ _ | delete map _ | clear map => map.path
  | watch arguments => arguments.path

end KernelMaps.Cli
