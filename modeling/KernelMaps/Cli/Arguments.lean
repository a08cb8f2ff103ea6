import KernelMaps.Cli.Command

/-!
Reading the words of a command line. Options may stand anywhere behind the name of the command,
take their value from the next word or behind an equals sign, and are given at most once; two
dashes make all further words positional. A value is looked at when the next thing begins, so of
two faults the one that is certain first is reported.
-/

namespace KernelMaps.Cli

inductive UsageFault where
  | helpAsked
  | nothingGiven
  | noSuchCommand
  | unknownArgument
  | missingArgument
  | repeatedArgument
  | unwantedValue
  | valueNotAllowed
  | malformedValue
  deriving DecidableEq

namespace UsageFault

def message : UsageFault → String
  | helpAsked => "usage: COMMAND PIN, where COMMAND is info, dump, get, update, delete, clear or watch"
  | nothingGiven => "a command is required"
  | noSuchCommand => "no such command"
  | unknownArgument => "unexpected argument"
  | missingArgument => "a required argument is missing"
  | repeatedArgument => "an option is given twice"
  | unwantedValue => "an option takes no value"
  | valueNotAllowed => "a value is missing or not allowed"
  | malformedValue => "a value is no number in range"

def exitCode : UsageFault → Nat
  | helpAsked => 0
  | _ => 2

end UsageFault

inductive Slot where
  | path
  | key
  | values
  | keyFormat
  | valueFormat
  | json
  | pages
  | wakeup
  | duration
  | quiet
  | help
  deriving DecidableEq

namespace Slot

def takesValue : Slot → Bool
  | json | quiet | help => false
  | _ => true

/-- Keys and values may be negative numbers, which look like options. -/
def allowsNegative : Slot → Bool
  | key | values => true
  | _ => false

end Slot

inductive Verb where
  | info
  | dump
  | get
  | update
  | delete
  | clear
  | watch
  deriving DecidableEq

namespace Verb

def all : List Verb := [info, dump, get, update, delete, clear, watch]

def name : Verb → String
  | info => "info"
  | dump => "dump"
  | get => "get"
  | update => "update"
  | delete => "delete"
  | clear => "clear"
  | watch => "watch"

def ofName? (name : String) : Option Verb :=
  all.find? fun verb => verb.name == name

def positionals : Verb → List Slot
  | get | delete => [.path, .key]
  | update => [.path, .key, .values]
  | _ => [.path]

def options : Verb → List (String × Slot)
  | watch => [("pages", .pages), ("wakeup", .wakeup), ("duration", .duration), ("quiet", .quiet),
      ("help", .help)]
  | verb =>
      let formats := [("key-format", Slot.keyFormat), ("value-format", .valueFormat), ("help", .help)]
      if verb = info ∨ verb = dump then ("json", .json) :: formats else formats

def letters : Verb → List (Char × Slot)
  | watch => [('q', .quiet), ('h', .help)]
  | _ => [('k', .keyFormat), ('v', .valueFormat), ('h', .help)]

end Verb

structure Draft where
  path : Option String := none
  key : Option String := none
  values : List String := []
  keyFormat : Option Format := none
  valueFormat : Option Format := none
  json : Bool := false
  pages : Option Nat := none
  wakeup : Option UInt32 := none
  duration : Option Nat := none
  quiet : Bool := false
  deriving DecidableEq

def readPath (text : String) : Except UsageFault String :=
  if text.isEmpty then .error .valueNotAllowed else .ok text

def readFormat (text : String) : Except UsageFault Format :=
  match Format.ofName? text with
  | some format => .ok format
  | none => .error .valueNotAllowed

def readCount (text : String) : Except UsageFault Nat :=
  (Text.readNatural 10 (bitRange 64 - 1) text.toList).mapError fun _ => .malformedValue

def readWakeup (text : String) : Except UsageFault UInt32 :=
  match Text.readSigned 64 text.toList with
  | .error _ => .error .malformedValue
  | .ok value =>
      if 0 ≤ value ∧ value < bitRange 32 then .ok (UInt32.ofNat value.toNat) else .error .malformedValue

def once {α : Type} (before : Option α) (read : String → Except UsageFault α) :
    List String → Except UsageFault (Option α)
  | [] => .error .valueNotAllowed
  | text :: _ => if before.isSome then .error .repeatedArgument else (read text).map some

def flagOnce (before : Bool) : Except UsageFault Bool :=
  if before then .error .repeatedArgument else .ok true

namespace Draft

def store (draft : Draft) (slot : Slot) (given : List String) : Except UsageFault Draft := do
  match slot with
  | .path => return { draft with path := ← once draft.path readPath given }
  | .key => return { draft with key := ← once draft.key .ok given }
  | .values => return { draft with values := draft.values ++ given }
  | .keyFormat => return { draft with keyFormat := ← once draft.keyFormat readFormat given }
  | .valueFormat => return { draft with valueFormat := ← once draft.valueFormat readFormat given }
  | .json => return { draft with json := ← flagOnce draft.json }
  | .pages => return { draft with pages := ← once draft.pages readCount given }
  | .wakeup => return { draft with wakeup := ← once draft.wakeup readWakeup given }
  | .duration => return { draft with duration := ← once draft.duration readCount given }
  | .quiet => return { draft with quiet := ← flagOnce draft.quiet }
  | .help => throw .helpAsked

def finish? (draft : Draft) (verb : Verb) : Option Command := do
  let path ← draft.path
  let map : MapArguments := ⟨path, draft.keyFormat.getD .hex, draft.valueFormat.getD .hex⟩
  match verb with
  | .info => return .info map draft.json
  | .dump => return .dump map draft.json
  | .get => return .get map (← draft.key)
  | .update =>
      let key ← draft.key
      if draft.values.isEmpty then none else return .update map key draft.values
  | .delete => return .delete map (← draft.key)
  | .clear => return .clear map
  | .watch =>
      let pages := draft.pages.getD 8
      return .watch ⟨path, pages, draft.wakeup, draft.duration.getD 0, draft.quiet⟩

end Draft

/-- How far the words have been read: a slot that was begun waits for the next word if it has no
value yet, and is stored when something else begins. -/
structure Reading where
  draft : Draft := {}
  begun : Option (Slot × List String) := none
  position : Nat := 0
  onlyPositionals : Bool := false

namespace Reading

def settle (reading : Reading) : Except UsageFault Reading := do
  match reading.begun with
  | none => return reading
  | some (slot, given) =>
      return { reading with draft := ← reading.draft.store slot given, begun := none }

def start (reading : Reading) (slot : Slot) (given : List String) : Except UsageFault Reading := do
  return { ← reading.settle with begun := some (slot, given) }

def put (reading : Reading) (slot : Slot) (given : List String) : Except UsageFault Reading := do
  let reading ← reading.settle
  return { reading with draft := ← reading.draft.store slot given }

def positional? (reading : Reading) (verb : Verb) : Option Slot :=
  verb.positionals[reading.position]?

def takePositional (reading : Reading) (verb : Verb) (word : String) :
    Except UsageFault Reading := do
  match reading.positional? verb with
  | none => throw .unknownArgument
  | some slot =>
      let next := if slot = .values then reading.position else reading.position + 1
      return { ← reading.start slot [word] with position := next }

def takeWord (reading : Reading) (verb : Verb) (word : String) : Except UsageFault Reading :=
  match reading.begun with
  | some (slot, []) => .ok { reading with begun := some (slot, [word]) }
  | _ => reading.takePositional verb word

def takeLong (reading : Reading) (verb : Verb) (body : List Char) : Except UsageFault Reading :=
  let (name, value) := match Text.splitFirst '=' body with
    | some (name, value) => (name, some (String.ofList value))
    | none => (body, none)
  match verb.options.lookup (String.ofList name), value with
  | none, _ => .error .unknownArgument
  | some slot, some value =>
      if slot.takesValue then reading.put slot [value] else .error .unwantedValue
  | some slot, none => if slot.takesValue then reading.start slot [] else reading.put slot []

def takeLetters (reading : Reading) (verb : Verb) : List Char → Except UsageFault Reading
  | [] => .ok reading
  | letter :: rest =>
      match verb.letters.lookup letter with
      | none => .error .unknownArgument
      | some slot =>
          if slot.takesValue then
            match rest with
            | [] => reading.start slot []
            | '=' :: value => reading.put slot [String.ofList value]
            | value => reading.put slot [String.ofList value]
          else
            match reading.put slot [] with
            | .error fault => .error fault
            | .ok reading => reading.takeLetters verb rest

end Reading

/-- Digits with at most one point behind the first of them, and an exponent that is not empty. -/
def isNumber (text : List Char) : Bool :=
  let (mantissa, exponent) := text.span fun char => char ≠ 'e' && char ≠ 'E'
  let digits := fun (text : List Char) => text.all Char.isDigit
  let wholeMantissa := match Text.splitFirst '.' mantissa with
    | some (whole, fraction) => whole ≠ [] && digits whole && digits fraction
    | none => digits mantissa
  wholeMantissa && match exponent with
    | [] => true
    | _ :: exponent => mantissa ≠ [] && exponent ≠ [] && digits exponent

def Reading.step (verb : Verb) (reading : Reading) (word : String) : Except UsageFault Reading :=
  if reading.onlyPositionals then reading.takePositional verb word
  else match word.toList with
    | ['-', '-'] => .ok { reading with onlyPositionals := true }
    | '-' :: '-' :: body => reading.takeLong verb body
    | '-' :: letter :: rest =>
        let negative := isNumber (letter :: rest) &&
          (reading.positional? verb).any Slot.allowsNegative
        if negative then reading.takeWord verb word else reading.takeLetters verb (letter :: rest)
    | _ => reading.takeWord verb word

def readCommand (verb : Verb) (words : List String) : Except UsageFault Command := do
  let reading ← words.foldlM (Reading.step verb) {}
  let reading ← reading.settle
  match reading.draft.finish? verb with
  | some command => return command
  | none => throw .missingArgument

def isCommandName (word : String) : Bool :=
  word == "help" || (Verb.ofName? word).isSome

def readHelp : List String → UsageFault
  | [] => .helpAsked
  | [word] => if isCommandName word then .helpAsked else .noSuchCommand
  | _ => .noSuchCommand

def refuseFirst (word : String) : UsageFault :=
  match word.toList with
  | '-' :: '-' :: body =>
      if body = "help".toList then .helpAsked
      else if "help=".toList.isPrefixOf body then .unwantedValue
      else .unknownArgument
  | '-' :: letter :: _ => if letter = 'h' then .helpAsked else .unknownArgument
  | _ => .noSuchCommand

def parse : List String → Except UsageFault Command
  | [] => .error .nothingGiven
  | ["--"] => .error .nothingGiven
  | "--" :: word :: _ =>
      .error (if isCommandName word then .unknownArgument else .noSuchCommand)
  | word :: rest =>
      match Verb.ofName? word with
      | some verb => readCommand verb rest
      | none => .error (if word = "help" then readHelp rest else refuseFirst word)

end KernelMaps.Cli
