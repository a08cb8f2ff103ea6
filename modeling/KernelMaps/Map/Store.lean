import KernelMaps.Map.Access
import KernelMaps.Map.Kind
import KernelMaps.Map.Ordered

/-!
A map kept in memory. It answers the five element calls as the kernel does for the kind of the
map: arrays whose every index exists, arrays of references with empty slots, hashes in the order
of their keys, and queues or stacks without keys.
-/

namespace KernelMaps

inductive Store where
  | array (slots : Array (Option Bytes))
  | references (slots : Array (Option Bytes))
  | hash (capacity : Nat) (entries : OrderedMap)
  | sequence (newestFirst : Bool) (capacity : Nat) (items : List Bytes)

namespace Store

def empty (kind : Kind) (capacity : Nat) : Store :=
  match kind with
  | .array | .percpuArray => array (Array.replicate capacity none)
  | .progArray | .perfEventArray | .cgroupArray | .devmap | .xskmap | .sockmap | .arrayOfMaps =>
      references (Array.replicate capacity none)
  | .queue => sequence false capacity []
  | .stack => sequence true capacity []
  | _ => hash capacity .empty

def size : Store → Nat
  | array slots | references slots => slots.countP Option.isSome
  | hash _ entries => entries.size
  | sequence _ _ items => items.length

def indexOf : Option Bytes → Except Errno Nat
  | none => .error .invalid
  | some key => if key.length = 4 then .ok (wordValue key) else .error .invalid

theorem indexOf_wordBytes {index : Nat} (below : index < wordRange 4) :
    indexOf (some (wordBytes 4 index)) = .ok index := by
  simp only [indexOf, wordBytes_length, if_true]
  rw [wordValue_wordBytes, Nat.mod_eq_of_lt below]

def copyTo (room : Nat) (stored : Bytes) : Reply :=
  if stored.length = room then .ok stored else .error .invalid

def next? (newestFirst : Bool) (items : List Bytes) : Option Bytes :=
  if newestFirst then items.getLast? else items.head?

def withoutNext (newestFirst : Bool) (items : List Bytes) : List Bytes :=
  if newestFirst then items.dropLast else items.tail

def lookup (store : Store) (key : Option Bytes) (room : Nat) : Reply := do
  match store with
  | array slots =>
      match slots[← indexOf key]? with
      | some (some value) => copyTo room value
      | some none => return zeroed room
      | none => throw .noEntry
  | references slots =>
      match slots[← indexOf key]? with
      | some (some value) => copyTo room value
      | _ => throw .noEntry
  | hash _ entries =>
      match key with
      | none => throw .invalid
      | some key =>
          match entries.get? key with
          | some value => copyTo room value
          | none => throw .noEntry
  | sequence newestFirst _ items =>
      match next? newestFirst items with
      | some value => copyTo room value
      | none => throw .noEntry

def createOnly : UInt64 := 1

/-- The flag of updates that only replace; a full sequence makes room for them. -/
def replaceOnly : UInt64 := 2

def updateHash (capacity : Nat) (entries : OrderedMap) (key value : Bytes) (flags : UInt64) :
    Except Errno OrderedMap :=
  let present := (entries.get? key).isSome
  if flags = createOnly ∧ present then .error .alreadyThere
  else if flags = replaceOnly ∧ !present then .error .noEntry
  else if !present ∧ capacity ≤ entries.size then .error .tooBig
  else .ok (entries.insert key value)

def append (capacity : Nat) (items : List Bytes) (value : Bytes) (flags : UInt64) :
    Except Errno (List Bytes) :=
  if items.length < capacity then .ok (items ++ [value])
  else if flags &&& replaceOnly = 0 then .error .tooBig
  else .ok (items.tail ++ [value])

def update (store : Store) (key : Option Bytes) (value : Bytes) (flags : UInt64) :
    Except Errno Store := do
  match store with
  | array slots =>
      let index ← indexOf key
      if slots.size ≤ index then throw .tooBig
      if flags = createOnly then throw .alreadyThere
      return array (slots.setIfInBounds index (some value))
  | references slots =>
      let index ← indexOf key
      if slots.size ≤ index then throw .tooBig
      return references (slots.setIfInBounds index (some value))
  | hash capacity entries =>
      match key with
      | none => throw .invalid
      | some key => return hash capacity (← updateHash capacity entries key value flags)
  | sequence newestFirst capacity items =>
      if key.isSome then throw .invalid
      return sequence newestFirst capacity (← append capacity items value flags)

def delete (store : Store) (key : Bytes) : Except Errno Store := do
  match store with
  | array _ | sequence .. => throw .invalid
  | references slots =>
      let index ← indexOf (some key)
      match slots[index]? with
      | none => throw .tooBig
      | some none => throw .noEntry
      | some (some _) => return references (slots.setIfInBounds index none)
  | hash capacity entries =>
      if (entries.get? key).isSome then return hash capacity (entries.erase key)
      else throw .noEntry

/-- Removes an element and hands it out. It is gone even if it does not fit the buffer. -/
def take (store : Store) (key : Option Bytes) (room : Nat) : Reply × Store :=
  match store with
  | array _ | references _ => (.error .notSupported, store)
  | hash capacity entries =>
      match key with
      | none => (.error .invalid, store)
      | some key =>
          match entries.get? key with
          | none => (.error .noEntry, store)
          | some value => (copyTo room value, hash capacity (entries.erase key))
  | sequence newestFirst capacity items =>
      match next? newestFirst items with
      | none => (.error .noEntry, store)
      | some value =>
          (copyTo room value, sequence newestFirst capacity (withoutNext newestFirst items))

def nextIndex (count : Nat) (key : Option Bytes) (room : Nat) : Reply := do
  let index ← match key with
    | none => pure 0
    | some key => (indexOf (some key)).map (· + 1)
  if index < count then copyTo room (wordBytes 4 index) else throw .noEntry

def nextKey (store : Store) (key : Option Bytes) (room : Nat) : Reply :=
  match store with
  | array slots | references slots => nextIndex slots.size key room
  | hash _ entries =>
      let found := match key with
        | none => entries.firstKey?
        | some key => entries.keyAfter? key
      match found with
      | some key => copyTo room key
      | none => .error .noEntry
  | sequence .. => .error .invalid

def settle (store : Store) : Except Errno Store → Reply × Store
  | .ok changed => (.ok [], changed)
  | .error errno => (.error errno, store)

def answer (request : Request) (store : Store) : Reply × Store :=
  match request with
  | .lookup key room => (store.lookup key room, store)
  | .update key value flags => store.settle (store.update key value flags)
  | .delete key => store.settle (store.delete key)
  | .take key room => store.take key room
  | .nextKey key room => (store.nextKey key room, store)

def seed (store : Store) (key value : Bytes) : Store :=
  match store with
  | array slots => array (slots.setIfInBounds (wordValue key) (some value))
  | references slots => references (slots.setIfInBounds (wordValue key) (some value))
  | hash capacity entries => hash capacity (entries.insert key value)
  | sequence newestFirst capacity items => sequence newestFirst capacity (items ++ [value])

/-- One more than the number of keys a walk can be given. -/
def walkBudget : Store → Nat
  | array slots | references slots => slots.size + 1
  | hash _ entries => entries.size + 1
  | sequence .. => 1

/-- Everything stored under keys of a size, in the order of a walk, up to the first key of another
size; unset slots are left out, and a sequence shows nothing. -/
def contents (store : Store) (keySize : Nat) : Option (List (Bytes × Bytes)) :=
  match store with
  | array slots | references slots =>
      if keySize = 4 then
        some ((slots.toList.zipIdx).filterMap fun (slot, index) =>
          slot.map fun value => (wordBytes 4 index, value))
      else some []
  | hash _ entries => some (entries.entries.takeWhile fun entry => entry.1.length = keySize)
  | sequence .. => none

end Store

end KernelMaps
