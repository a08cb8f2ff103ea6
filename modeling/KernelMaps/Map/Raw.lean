import KernelMaps.Map.Access
import KernelMaps.Map.Descriptor

/-!
Byte access to a map. Every key and value is measured against the descriptor before a call is
made, a missing element is an answer and not a failure, and what a call hands out fills the
caller's buffer.
-/

namespace KernelMaps.Descriptor

def keyArgument (map : Descriptor) (key : Bytes) : Except MapError (Option Bytes) :=
  if key.length ≠ map.callKeySize then .error (.badKeySize map.callKeySize key.length)
  else .ok (if map.kind.isKeyless then none else some key)

theorem keyArgument_of_keyed {map : Descriptor} {key : Bytes}
    (keyed : map.kind.isKeyless = false) (sized : key.length = map.keySize) :
    map.keyArgument key = .ok (some key) := by
  simp [keyArgument, callKeySize_of_keyed keyed, keyed, sized]

theorem keyArgument_of_keyless {map : Descriptor} (keyless : map.kind.isKeyless = true) :
    map.keyArgument [] = .ok none := by
  simp [keyArgument, callKeySize_of_keyless keyless, keyless]

def checkKey (map : Descriptor) (key : Bytes) : Except MapError Unit :=
  if key.length ≠ map.keySize then .error (.badKeySize map.keySize key.length) else .ok ()

def handedOut (operation : Operation) (room : Nat) : Reply → Except MapError (Option Bytes)
  | .ok bytes => .ok (some (fitted room bytes))
  | .error errno =>
      if errno = Errno.noEntry then .ok none else .error (.call operation (.system errno))

def lookup (map : Descriptor) (key : Bytes) : Attempt (Option Bytes) := do
  let key ← liftM (map.keyArgument key)
  let reply ← Attempt.perform (.lookup key map.bufferSize)
  liftM (handedOut .gettingValue map.bufferSize reply)

def update (map : Descriptor) (key value : Bytes) (flags : UInt64) : Attempt Unit := do
  let key ← liftM (map.keyArgument key)
  if value.length ≠ map.bufferSize then throw (.badValueSize map.bufferSize value.length)
  match ← Attempt.perform (.update key value flags) with
  | .ok _ => return ()
  | .error errno => throw (.call .updatingValue (.system errno))

def delete (map : Descriptor) (key : Bytes) : Attempt Unit := do
  liftM (map.checkKey key)
  match ← Attempt.perform (.delete key) with
  | .ok _ => return ()
  | .error errno =>
      if errno = Errno.noEntry then throw .keyNotFound
      else throw (.call .deletingValue (.system errno))

def take (map : Descriptor) (key : Bytes) : Attempt (Option Bytes) := do
  let key ← liftM (map.keyArgument key)
  let reply ← Attempt.perform (.take key map.bufferSize)
  liftM (handedOut .poppingValue map.bufferSize reply)

def stepKey (map : Descriptor) (key : Option Bytes) : Attempt (Option Bytes) := do
  let reply ← Attempt.perform (.nextKey key map.keySize)
  liftM (handedOut .gettingNextKey map.keySize reply)

def firstKey (map : Descriptor) : Attempt (Option Bytes) :=
  map.stepKey none

def nextKey (map : Descriptor) (key : Bytes) : Attempt (Option Bytes) := do
  liftM (map.checkKey key)
  map.stepKey (some key)

end KernelMaps.Descriptor

namespace KernelMaps

/-- A position between the keys of a map. The walk is over after its end or its first failure. -/
structure KeyWalk where
  current : Option Bytes
  finished : Bool
  deriving DecidableEq

namespace KeyWalk

def start : KeyWalk := ⟨none, false⟩

def next (map : Descriptor) (walk : KeyWalk) :
    Access (Option (Except MapError Bytes) × KeyWalk) :=
  if walk.finished then return (none, walk)
  else do
    let found ← match walk.current with
      | none => map.firstKey.run
      | some key => (map.nextKey key).run
    match found with
    | .ok (some key) => return (some (.ok key), { walk with current := some key })
    | .ok none => return (none, { walk with finished := true })
    | .error error => return (some (.error error), { walk with finished := true })

def itemsAfter (map : Descriptor) (before : List (Except MapError Bytes)) :
    (limit : Nat) → KeyWalk →
      Access (List (Except MapError Bytes) × Option (Except MapError Bytes))
  | 0, walk => do
      let (item, _) ← walk.next map
      return (before.reverse, item)
  | limit + 1, walk => do
      let (item, walk) ← walk.next map
      match item with
      | none => return (before.reverse, none)
      | some item => itemsAfter map (item :: before) limit walk

def items (map : Descriptor) (limit : Nat) (walk : KeyWalk) :
    Access (List (Except MapError Bytes) × Option (Except MapError Bytes)) :=
  itemsAfter map [] limit walk

end KeyWalk

/-- Visits the next key of a walk, behind what was collected before, newest first. -/
def collectNext {α : Type} (map : Descriptor) (visit : Bytes → Attempt (Option α))
    (state : KeyWalk × List α) : Attempt ((KeyWalk × List α) ⊕ List α) := do
  let (item, walk) ← ExceptT.lift (state.1.next map)
  match item with
  | none => return .inr state.2.reverse
  | some (.error error) => throw error
  | some (.ok key) =>
      match ← visit key with
      | none => return .inr state.2.reverse
      | some result => return .inl (walk, result :: state.2)

/-- Collects what a visit makes of each key until the keys end, the visit stops or one fails. -/
def collectKeys {α : Type} (map : Descriptor) (visit : Bytes → Attempt (Option α)) (budget : Nat) :
    Attempt (Option (List α)) :=
  Attempt.loop (collectNext map visit) budget (.start, [])

def clearKeys (map : Descriptor) (budget : Nat) : Attempt (Option Unit) :=
  Attempt.loop (fun (_ : Unit) => do
    match ← map.firstKey with
    | none => return .inr ()
    | some key =>
        map.delete key
        return .inl ()) budget ()

def deletePresent (map : Descriptor) (key : Bytes) : Attempt Unit :=
  tryCatch (map.delete key) fun error =>
    match error with
    | .keyNotFound => return ()
    | error => throw error

def clearFrom (map : Descriptor) (first : Nat) : (count : Nat) → Attempt Unit
  | 0 => return ()
  | count + 1 => do
      deletePresent map (wordBytes 4 first)
      clearFrom map (first + 1) count

def clearIndices (map : Descriptor) : Attempt Unit :=
  clearFrom map 0 map.capacity.toNat

namespace Descriptor

def textFactor : Nat := 8

def textRoom (size factor : Nat) : Nat :=
  machineSize (max size 1 * max factor 1)

def renderWith (codec : Codec) (factor : Nat) (bytes : Bytes) : Except MapError String :=
  (codec.render bytes (textRoom bytes.length factor)).mapError .codec

def keyText (map : Descriptor) (factor : Nat) (key : Bytes) : Except MapError String := do
  map.checkKey key
  renderWith map.keyCodec factor key

def valueText (map : Descriptor) (factor : Nat) (value : Bytes) : Except MapError String :=
  if value.length ≠ map.valueSize then .error (.badValueSize map.valueSize value.length)
  else renderWith map.valueCodec factor value

def keyOfText (map : Descriptor) (text : String) : Except MapError Bytes :=
  (map.keyCodec.parse text map.keySize).mapError .codec

def valueOfText (map : Descriptor) (text : String) : Except MapError Bytes :=
  (map.valueCodec.parse text map.valueSize).mapError .codec

end Descriptor

end KernelMaps
