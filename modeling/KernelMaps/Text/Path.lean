import KernelMaps.Text.Blank
import KernelMaps.Text.Utf8

/-!
Paths as pieces between slashes. Empty pieces and single dots name nothing, so that a path is
compared and named by the pieces that are left.
-/

namespace KernelMaps.Text

def isAbsolute (path : List Char) : Bool :=
  path.head? = some '/'

def pathParts (path : List Char) : List (List Char) :=
  (splitAll '/' path).filter fun part => part ≠ [] && part ≠ ['.']

def fileName? (path : List Char) : Option (List Char) :=
  (pathParts path).getLast?.filter fun part => part ≠ ['.', '.']

def isBelow (root path : List Char) : Bool :=
  isAbsolute path && (pathParts root).isPrefixOf (pathParts path)

inductive Node where
  | file
  | directory
  deriving DecidableEq

/-- The files and directories there are, under their names from the root on. Relative paths start
at a directory of their own. -/
structure FileTree where
  entries : List (List (List Char) × Node)
  here : List (List Char)

namespace FileTree

def ofNames (here : List (List Char)) (files directories : List String) : FileTree :=
  let entry := fun (node : Node) (name : String) => (here ++ pathParts name.toList, node)
  ⟨(here, .directory) :: directories.map (entry .directory) ++ files.map (entry .file), here⟩

/-- What is at a place. The root is a directory, and so is every place that an entry lies below. -/
def node? (tree : FileTree) (place : List (List Char)) : Option Node :=
  match tree.entries.lookup place with
  | some node => some node
  | none =>
      if place = [] ∨ tree.entries.any fun entry => place.isPrefixOf entry.1 then some .directory
      else none

def follow (tree : FileTree) (place : List (List Char)) (part : List Char) :
    Option (List (List Char)) :=
  if tree.node? place ≠ some .directory then none
  else if part = [] ∨ part = ['.'] then some place
  else if part = ['.', '.'] then some place.dropLast
  else some (place ++ [part])

def pathRoom : Nat := 4096

/-- What a path leads to. An empty path and one that is too long lead nowhere. -/
def find? (tree : FileTree) (path : List Char) : Option Node := do
  if path = [] ∨ pathRoom ≤ utf8Length path then none
  else
    let place ← (splitAll '/' path).foldlM tree.follow (if isAbsolute path then [] else tree.here)
    tree.node? place

end FileTree

end KernelMaps.Text
