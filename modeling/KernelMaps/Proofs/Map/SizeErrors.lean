import KernelMaps.Proofs.Map.Enumeration
import KernelMaps.Proofs.Map.OneCall
import KernelMaps.Proofs.Map.Outcomes

/-!
Errors about the sizes of keys and values. What a view was made over has the sizes of its types, so
that it complains of no key that it sends or is given, and of a value only if it was given a wrong
number of them, or if it takes one value where there is one for each CPU.
-/

namespace KernelMaps

namespace MapError

def isKeySize : MapError → Bool
  | badKeySize .. => true
  | openOnCpu _ _ source => source.isKeySize
  | _ => false

def isValueSize : MapError → Bool
  | badValueSize .. => true
  | openOnCpu _ _ source => source.isValueSize
  | _ => false

/-- Whether an error complains neither of the size of a key nor of that of a value. -/
def SparesSizes (error : MapError) : Prop :=
  error.isKeySize = false ∧ error.isValueSize = false

theorem SparesSizes.excused {error : MapError} (spares : error.SparesSizes) (excuse : Prop) :
    error.isKeySize = false ∧ (error.isValueSize = true → excuse) :=
  ⟨spares.1, fun complains => absurd (spares.2.symm.trans complains) Bool.false_ne_true⟩

end MapError

open MapError (SparesSizes)

def HasLength (length : Nat) (found : Option Bytes) : Prop :=
  ∀ bytes, found = some bytes → bytes.length = length

theorem hasLength_none (length : Nat) : HasLength length none := by
  intro bytes impossible
  cases impossible

theorem hasLength_some {length : Nat} {bytes : Bytes} (exact : bytes.length = length) :
    HasLength length (some bytes) := by
  rintro _ ⟨⟩
  exact exact

namespace Descriptor

variable {map : Descriptor} {key value : Bytes}

theorem handedOut_ends (operation : Operation) (room : Nat) (reply : Reply) :
    (liftM (handedOut operation room reply) : Attempt (Option Bytes)).Ends (HasLength room)
      SparesSizes := by
  cases reply with
  | ok bytes => exact Attempt.ends_pure (hasLength_some (fitted_length ..))
  | error errno =>
      rw [handedOut]
      split
      · exact Attempt.ends_pure (hasLength_none room)
      · exact Attempt.ends_throw ⟨rfl, rfl⟩

theorem lookup_ends (fits : key.length = map.callKeySize) :
    (map.lookup key).Ends (HasLength map.bufferSize) SparesSizes := by
  rw [lookup, keyArgument_of_length fits]
  exact Attempt.ends_perform_bind fun reply => handedOut_ends _ _ reply

theorem take_ends (fits : key.length = map.callKeySize) :
    (map.take key).Ends (HasLength map.bufferSize) SparesSizes := by
  rw [take, keyArgument_of_length fits]
  exact Attempt.ends_perform_bind fun reply => handedOut_ends _ _ reply

theorem update_ends (fits : key.length = map.callKeySize) (fills : value.length = map.bufferSize)
    (flags : UInt64) : (map.update key value flags).Ends (fun _ => True) SparesSizes := by
  simp only [update, keyArgument_of_length fits, fills, ne_eq, not_true_eq_false, if_false]
  refine Attempt.ends_perform_bind ?_
  intro reply
  cases reply with
  | ok _ => exact Attempt.ends_pure trivial
  | error errno => exact Attempt.ends_throw ⟨rfl, rfl⟩

theorem update_refused (fits : key.length = map.callKeySize)
    (differs : value.length ≠ map.bufferSize) (flags : UInt64) :
    (map.update key value flags).run =
      .done (.error (.badValueSize map.bufferSize value.length)) := by
  simp only [update, keyArgument_of_length fits, ne_eq, differs, not_false_eq_true, if_true]
  rfl

theorem delete_ends (fits : key.length = map.keySize) :
    (map.delete key).Ends (fun _ => True) SparesSizes := by
  have checked : map.checkKey key = .ok () := checkKey_eq_ok.2 fits
  rw [delete, checked]
  refine Attempt.ends_perform_bind ?_
  intro reply
  cases reply with
  | ok _ => exact Attempt.ends_pure trivial
  | error errno =>
      dsimp only
      split <;> exact Attempt.ends_throw ⟨rfl, rfl⟩

theorem stepKey_ends (map : Descriptor) (position : Option Bytes) :
    (map.stepKey position).Ends (HasLength map.keySize) SparesSizes :=
  Attempt.ends_perform_bind fun reply => handedOut_ends _ _ reply

theorem nextKey_ends (fits : key.length = map.keySize) :
    (map.nextKey key).Ends (HasLength map.keySize) SparesSizes := by
  have checked : map.checkKey key = .ok () := checkKey_eq_ok.2 fits
  rw [nextKey, checked]
  exact map.stepKey_ends (some key)

end Descriptor

/-! Walks feed the keys that they are given back into the map. -/

structure KeyWalk.Stepped (map : Descriptor)
    (stepped : Option (Except MapError Bytes) × KeyWalk) : Prop where
  position : HasLength map.keySize stepped.2.current
  key : ∀ key, stepped.1 = some (.ok key) → key.length = map.keySize
  error : ∀ error, stepped.1 = some (.error error) → error.SparesSizes

section

variable {map : Descriptor} {current : Option Bytes} {finished : Bool}

theorem KeyWalk.stepped_end (stands : HasLength map.keySize current) :
    Stepped map (none, ⟨current, finished⟩) := by
  refine ⟨stands, ?_, ?_⟩
  · intro key impossible
    cases impossible
  · intro error impossible
    cases impossible

theorem KeyWalk.stepped_key {key : Bytes} (exact : key.length = map.keySize) :
    Stepped map (some (.ok key), ⟨some key, finished⟩) := by
  refine ⟨hasLength_some exact, ?_, ?_⟩
  · rintro _ ⟨⟩
    exact exact
  · intro error impossible
    cases impossible

theorem KeyWalk.stepped_error (stands : HasLength map.keySize current) {error : MapError}
    (spares : error.SparesSizes) : Stepped map (some (.error error), ⟨current, finished⟩) := by
  refine ⟨stands, ?_, ?_⟩
  · intro key impossible
    cases impossible
  · rintro _ ⟨⟩
    exact spares

theorem KeyWalk.next_yields {walk : KeyWalk} (stands : HasLength map.keySize walk.current) :
    (walk.next map).Yields (Stepped map) := by
  obtain ⟨current, finished⟩ := walk
  cases finished with
  | true => exact stepped_end stands
  | false =>
      cases current with
      | none =>
          refine Access.Yields.bind (map.stepKey_ends none) ?_
          rintro (error | ⟨_ | first⟩) holds
          · exact stepped_error stands holds
          · exact stepped_end stands
          · exact stepped_key (holds first rfl)
      | some key =>
          refine Access.Yields.bind (Descriptor.nextKey_ends (stands key rfl)) ?_
          rintro (error | ⟨_ | next⟩) holds
          · exact stepped_error stands holds
          · exact stepped_end stands
          · exact stepped_key (holds next rfl)

end

theorem collectKeys_ends {α : Type} {map : Descriptor} {visit : Bytes → Attempt (Option α)}
    {bad : MapError → Prop} (spares : ∀ error, error.SparesSizes → bad error)
    (each : ∀ key, key.length = map.keySize → (visit key).Ends (fun _ => True) bad) (budget : Nat) :
    (collectKeys map visit budget).Ends (fun _ => True) bad := by
  -- the key that a walk stands at came from the map, so it has the size to go on from
  let stands (state : KeyWalk × List α) : Prop := HasLength map.keySize state.1.current
  have step : ∀ state, stands state →
      (collectNext map visit state).Ends (Sum.elim stands fun _ => True) bad := by
    intro state standing
    refine (Attempt.ends_lift (KeyWalk.next_yields standing)).bind ?_
    rintro ⟨_ | error | key, walk⟩ stepped
    · exact Attempt.ends_pure trivial
    · exact Attempt.ends_throw (spares error (stepped.error error rfl))
    · refine (each key (stepped.key key rfl)).bind ?_
      intro result _
      cases result with
      | none => exact Attempt.ends_pure trivial
      | some result => exact Attempt.ends_pure stepped.position
  exact Attempt.ends_loop stands step budget (hasLength_none _)

theorem clearKeys_ends (map : Descriptor) (budget : Nat) :
    (clearKeys map budget).Ends (fun _ => True) SparesSizes := by
  refine Attempt.ends_loop (fun _ => True) ?_ budget trivial
  intro state _
  refine (map.stepKey_ends none).bind ?_
  intro found given
  cases found with
  | none => exact Attempt.ends_pure trivial
  | some key =>
      exact (Descriptor.delete_ends (given key rfl)).bind fun _ _ => Attempt.ends_pure trivial

theorem clearFrom_ends {map : Descriptor} (keySize : map.keySize = 4) (first count : Nat) :
    (clearFrom map first count).Ends (fun _ => True) SparesSizes := by
  induction count generalizing first with
  | zero => exact Attempt.ends_pure trivial
  | succ count ih =>
      have fits : (wordBytes 4 first).length = map.keySize := by rw [wordBytes_length, keySize]
      have present : (deletePresent map (wordBytes 4 first)).Ends (fun _ => True) SparesSizes := by
        refine (Descriptor.delete_ends fits).tryCatch ?_
        intro error spares
        split
        · exact Attempt.ends_pure trivial
        · exact Attempt.ends_throw spares
      exact present.bind fun _ _ => ih (first + 1)

theorem clearIndices_ends {map : Descriptor} (words : map.keySize = 4 ∨ map.capacity = 0) :
    (clearIndices map).Ends (fun _ => True) SparesSizes := by
  rcases words with keySize | none
  · exact clearFrom_ends keySize 0 _
  · rw [clearIndices, none]
    exact Attempt.ends_pure trivial

/-! Views. -/

inductive Transfer where
  | reads
  | writes
  | neither
  deriving DecidableEq

inductive ViewCall (κ ν : Type) where
  | get (key : κ)
  | update (key : κ) (value : ν)
  | updateWith (key : κ) (value : ν) (flags : UInt64)
  | remove (key : κ)
  | enumerate (budget : Nat)
  | clear (budget : Nat)

namespace ViewCall

variable {κ ν α : Type}

def attempt [Element κ] (view : TypedMap κ ν) : ViewCall κ ν → Attempt Unit
  | get key => do let _ ← view.get key
  | update key value => view.update key value
  | updateWith key value flags => view.updateWith key value flags
  | remove key => view.remove key
  | enumerate budget => do let _ ← view.enumerate budget
  | clear budget => do let _ ← view.clear budget

def IsRagged (cpus : Nat) : ViewCall κ (List α) → Prop
  | update _ values | updateWith _ values _ => values.length ≠ cpus
  | _ => False

def transfer : ViewCall κ ν → Transfer
  | get _ | enumerate _ => .reads
  | update .. | updateWith .. => .writes
  | remove _ | clear _ => .neither

end ViewCall

inductive ArrayCall (ν : Type) where
  | element (call : ViewCall UInt32 ν)
  | snapshot

namespace ArrayCall

variable {ν : Type}

def attempt (view : TypedMap UInt32 ν) : ArrayCall ν → Attempt Unit
  | element call => call.attempt view
  | snapshot => do let _ ← view.snapshot

def transfer : ArrayCall ν → Transfer
  | element call => call.transfer
  | snapshot => .reads

end ArrayCall

namespace TypedMap

variable {κ ν α : Type} [Element κ]

def ClearsByKeys (view : TypedMap κ ν) : Prop :=
  view.clearing = .byIndex → view.map.keySize = 4 ∨ view.map.capacity = 0

omit [Element κ] in
theorem clear_ends {view : TypedMap κ ν} (clears : view.ClearsByKeys) (budget : Nat) :
    (view.clear budget).Ends (fun _ => True) SparesSizes := by
  rw [clear]
  cases clearing : view.clearing with
  | byFirstKey => exact clearKeys_ends view.map budget
  | byIndex => exact (clearIndices_ends (clears clearing)).bind fun _ _ => Attempt.ends_pure trivial

structure Keyed (view : TypedMap κ ν) : Prop where
  keyed : view.map.kind.isKeyless = false
  keys : view.map.keySize = Element.size κ

namespace Keyed

variable {view : TypedMap κ ν} (keyed : view.Keyed) {bad : MapError → Prop}
include keyed

theorem keySize (key : κ) : (Element.encode key).length = view.map.keySize := by
  rw [Element.encode_length, keyed.keys]

theorem callKeySize (key : κ) : (Element.encode key).length = view.map.callKeySize :=
  (keyed.keySize key).trans (Descriptor.callKeySize_of_keyed keyed.keyed).symm

theorem remove_ends (key : κ) : (view.remove key).Ends (fun _ => True) SparesSizes :=
  Descriptor.delete_ends (keyed.keySize key)

variable (spares : ∀ error, error.SparesSizes → bad error)
  (reads : ∀ bytes error, bytes.length = view.map.bufferSize →
    view.content.unpack bytes = .error error → bad error)
include spares reads

theorem get_ends (key : κ) : (view.get key).Ends (fun _ => True) bad := by
  refine ((Descriptor.lookup_ends (keyed.callKeySize key)).mono (fun _ => id) spares).bind ?_
  intro found fills
  cases found with
  | none => exact Attempt.ends_throw (spares _ ⟨rfl, rfl⟩)
  | some bytes =>
      exact Attempt.ends_liftM (fun _ _ => trivial) fun error => reads bytes error (fills bytes rfl)

theorem visit_ends {key : Bytes} (exact : key.length = view.map.keySize) :
    (view.visit key).Ends (fun _ => True) bad := by
  rw [visit, readElement_of_length (exact.trans keyed.keys)]
  refine Attempt.Ends.tryCatch ((keyed.get_ends spares reads _).bind fun _ _ =>
    Attempt.ends_pure trivial) ?_
  intro error holds
  cases error <;> first | exact Attempt.ends_pure trivial | exact Attempt.ends_throw holds

theorem enumerate_ends (budget : Nat) : (view.enumerate budget).Ends (fun _ => True) bad :=
  collectKeys_ends spares (fun _ exact => keyed.visit_ends spares reads exact) budget

end Keyed

theorem Keyed.snapshot_ends {view : TypedMap UInt32 ν} (keyed : view.Keyed) {bad : MapError → Prop}
    (spares : ∀ error, error.SparesSizes → bad error)
    (reads : ∀ bytes error, bytes.length = view.map.bufferSize →
      view.content.unpack bytes = .error error → bad error) :
    view.snapshot.Ends (fun _ => True) bad := by
  have onwards (before : List ν) (first count : Nat) :
      (view.valuesFrom before first count).Ends (fun _ => True) bad := by
    induction count generalizing before first with
    | zero => exact Attempt.ends_pure trivial
    | succ count ih => exact (keyed.get_ends spares reads _).bind fun _ _ => ih _ _
  exact onwards [] 0 view.capacity

theorem Keyed.updateWith_ends {view : TypedMap κ ν} (keyed : view.Keyed) {bad : MapError → Prop}
    (spares : ∀ error, error.SparesSizes → bad error) {value : ν}
    (packs : ∀ bytes, view.content.pack value = .ok bytes → bytes.length = view.map.bufferSize)
    (refused : ∀ error, view.content.pack value = .error error → bad error) (key : κ)
    (flags : UInt64) : (view.updateWith key value flags).Ends (fun _ => True) bad := by
  refine (Attempt.ends_liftM packs refused).bind ?_
  intro bytes fills
  exact (Descriptor.update_ends (keyed.callKeySize key) fills flags).mono (fun _ => id) spares

theorem Keyed.attempt_ends {view : TypedMap κ ν} (keyed : view.Keyed)
    {reason : ViewCall κ ν → MapError → Prop}
    (spares : ∀ call error, error.SparesSizes → reason call error)
    (clears : ∀ budget, (view.clear budget).Ends (fun _ => True) (reason (.clear budget)))
    (reads : ∀ bytes error, bytes.length = view.map.bufferSize →
      view.content.unpack bytes = .error error →
        (∀ key, reason (.get key) error) ∧ ∀ budget, reason (.enumerate budget) error)
    (writes : ∀ key value flags, (view.updateWith key value flags).Ends (fun _ => True) fun error =>
      reason (.updateWith key value flags) error ∧ reason (.update key value) error)
    (call : ViewCall κ ν) : (call.attempt view).Ends (fun _ => True) (reason call) := by
  cases call with
  | get key =>
      refine (keyed.get_ends (spares (.get key)) ?_ key).bind fun _ _ => Attempt.ends_pure trivial
      exact fun bytes error fills failed => (reads bytes error fills failed).1 key
  | update key value => exact (writes key value 0).mono (fun _ => id) fun _ => And.right
  | updateWith key value flags =>
      exact (writes key value flags).mono (fun _ => id) fun _ => And.left
  | remove key => exact (keyed.remove_ends key).mono (fun _ => id) (spares _)
  | enumerate budget =>
      refine (keyed.enumerate_ends (spares (.enumerate budget)) ?_ budget).bind fun _ _ =>
        Attempt.ends_pure trivial
      exact fun bytes error fills failed => (reads bytes error fills failed).2 budget
  | clear budget => exact (clears budget).bind fun _ _ => Attempt.ends_pure trivial

end TypedMap

end KernelMaps
