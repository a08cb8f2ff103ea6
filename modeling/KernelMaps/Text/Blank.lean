/-!
The blank characters of Unicode (property White_Space) and what is cut at them: the ends of a
text and the words inside it.
-/

namespace KernelMaps.Text

def blankRanges : List (Nat × Nat) :=
  [(0x09, 0x0D), (0x20, 0x20), (0x85, 0x85), (0xA0, 0xA0), (0x1680, 0x1680), (0x2000, 0x200A),
    (0x2028, 0x2029), (0x202F, 0x202F), (0x205F, 0x205F), (0x3000, 0x3000)]

def isBlank (char : Char) : Bool :=
  blankRanges.any fun range => range.1 ≤ char.toNat && char.toNat ≤ range.2

def trimStart (text : List Char) : List Char :=
  text.dropWhile isBlank

def trimEnd (text : List Char) : List Char :=
  (text.reverse.dropWhile isBlank).reverse

def trim (text : List Char) : List Char :=
  trimEnd (trimStart text)

/-- Adds one character in front of words already split: a blank closes the word at the front. -/
def extendWords (char : Char) : List Char × List (List Char) → List Char × List (List Char)
  | (word, rest) =>
      if isBlank char then ([], if word.isEmpty then rest else word :: rest)
      else (char :: word, rest)

def words (text : List Char) : List (List Char) :=
  let (word, rest) := text.foldr extendWords ([], [])
  if word.isEmpty then rest else word :: rest

def stripLead (lead text : List Char) : Option (List Char) :=
  if lead.isPrefixOf text then some (text.drop lead.length) else none

def stripLast (char : Char) (text : List Char) : Option (List Char) :=
  if text.getLast? = some char then some text.dropLast else none

def splitFirst (mark : Char) : List Char → Option (List Char × List Char)
  | [] => none
  | char :: rest =>
      if char = mark then some ([], rest)
      else (splitFirst mark rest).map fun (before, after) => (char :: before, after)

def splitAll (mark : Char) : List Char → List (List Char)
  | [] => [[]]
  | char :: rest =>
      match splitAll mark rest with
      | [] => [[char]]
      | piece :: pieces => if char = mark then [] :: piece :: pieces else (char :: piece) :: pieces

end KernelMaps.Text
