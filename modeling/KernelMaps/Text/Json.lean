import KernelMaps.Text.Hexadecimal
import KernelMaps.Text.Numeral

/-!
JSON for reading by people: two spaces for each level, one member a line. Only quotes, backslashes
and control characters are escaped.
-/

namespace KernelMaps.Text

def jsonChar (char : Char) : List Char :=
  match char with
  | '"' => ['\\', '"']
  | '\\' => ['\\', '\\']
  | '\n' => ['\\', 'n']
  | '\r' => ['\\', 'r']
  | '\t' => ['\\', 't']
  | '\x08' => ['\\', 'b']
  | '\x0c' => ['\\', 'f']
  | char =>
      if char.toNat < 0x20 then "\\u00".toList ++ hexPair (UInt8.ofNat char.toNat) else [char]

def jsonString (text : String) : String :=
  String.ofList ('"' :: text.toList.flatMap jsonChar ++ ['"'])

def jsonNumber (value : Nat) : String :=
  String.ofList (decimal value)

def jsonBool (value : Bool) : String :=
  if value then "true" else "false"

def jsonBlock (opening closing margin : String) (members : List String) : String :=
  if members.isEmpty then opening ++ closing
  else
    let inner := margin ++ "  "
    let lines := members.map fun member => inner ++ member
    opening ++ "\n" ++ ",\n".intercalate lines ++ "\n" ++ margin ++ closing

def jsonObject (margin : String) (fields : List (String × String)) : String :=
  jsonBlock "\x7b" "\x7d" margin (fields.map fun field =>
    jsonString field.1 ++ ": " ++ field.2)

def jsonList (margin : String) (items : List String) : String :=
  jsonBlock "[" "]" margin items

end KernelMaps.Text
