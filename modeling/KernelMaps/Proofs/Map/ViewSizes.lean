import KernelMaps.Proofs.Map.SizeErrors

/-!
Sizes in the calls on views as they were made. A view of values that are elements of its map meets no
error about sizes, a view of rows only where it is given one of another length, and a view of single
values over a map with rows exchanges nothing with it.
-/

namespace KernelMaps

open MapError (SparesSizes)

variable {κ ν α ι : Type} [Element κ] [Element α]

def SizesFit (attempt : ι → Attempt Unit) : Prop :=
  Attempt.FailsOnly attempt fun _ error => error.SparesSizes

/-- How calls fail that exchange values of one size with a map that has elements of another. What
writes makes no call, and what reads is over as soon as a lookup succeeds. -/
structure RefusesElements (attempt : ι → Attempt Unit) (transfer : ι → Transfer)
    (size room : Nat) : Prop where
  fails : Attempt.FailsOnly attempt fun call error =>
    error.isKeySize = false ∧ (error.isValueSize = true → transfer call ≠ .neither)
  writes : ∀ call, transfer call = .writes →
    (attempt call).run = .done (.error (.badValueSize room size))
  reads : ∀ call, transfer call = .reads →
    (attempt call).StopsAtLookup (.badValueSize size room)

/-! Reads of what cannot be read. -/

theorem KeyWalk.next_looks_up_nothing (map : Descriptor) (walk : KeyWalk) :
    (walk.next map).Every fun request => request.isLookup = false := by
  refine walk.next_every (map.firstKey_asks.mono ?_) fun key => (map.nextKey_asks key).mono ?_
  · rintro _ rfl
    rfl
  · rintro _ ⟨-, rfl⟩
    rfl

theorem collectKeys_stops {result : Type} {error : MapError} {map : Descriptor}
    {visit : Bytes → Attempt (Option result)}
    (each : ∀ key, (visit key).StopsAtLookup error) (budget : Nat) :
    (collectKeys map visit budget).StopsAtLookup error := by
  refine Attempt.stopsAtLookup_loop ?_ budget _
  intro state
  have steps := Attempt.asks_lift (state.1.next_looks_up_nothing map)
  refine (steps.stopsAtLookup error).bind ?_
  rintro ⟨_ | _ | key, walk⟩
  · exact Attempt.stopsAtLookup_pure _
  · exact Attempt.stopsAtLookup_throw _
  · refine (each key).bind ?_
    intro found
    cases found <;> exact Attempt.stopsAtLookup_pure _

namespace TypedMap

def Unreadable (view : TypedMap κ ν) (error : MapError) : Prop :=
  ∀ bytes, bytes.length = view.map.bufferSize → view.content.unpack bytes = .error error

variable {view : TypedMap κ ν} (keyed : view.Keyed)
include keyed

theorem Keyed.get_stops {error : MapError} (unreadable : view.Unreadable error) (key : κ) :
    (view.get key).StopsAtLookup error := by
  rw [get, Descriptor.lookup, Descriptor.keyArgument_of_length (keyed.callKeySize key)]
  intro reply
  cases reply with
  | ok bytes =>
      have refused := unreadable (fitted view.map.bufferSize bytes) (fitted_length ..)
      refine ⟨fun _ _ => ?_, Attempt.stopsAtLookup_liftM _⟩
      show (liftM (view.content.unpack (fitted _ bytes)) : Attempt ν).run = _
      rw [refused]
      rfl
  | error errno =>
      refine ⟨fun _ impossible => absurd impossible Bool.false_ne_true, ?_⟩
      refine (Attempt.stopsAtLookup_liftM (Descriptor.handedOut _ _ (.error errno))).bind ?_
      intro found
      cases found with
      | none => exact Attempt.stopsAtLookup_throw _
      | some bytes => exact Attempt.stopsAtLookup_liftM _

theorem Keyed.enumerate_stops {expected actual : Nat}
    (unreadable : view.Unreadable (.badValueSize expected actual)) (budget : Nat) :
    (view.enumerate budget).StopsAtLookup (.badValueSize expected actual) := by
  refine collectKeys_stops ?_ budget
  intro key
  refine (Attempt.stopsAtLookup_liftM (readElement κ key)).bind ?_
  intro key
  refine ((keyed.get_stops unreadable key).bind fun _ => Attempt.stopsAtLookup_pure _).tryCatch rfl ?_
  intro other
  cases other <;> trivial

omit [Element κ] keyed in
theorem Keyed.snapshot_stops {view : TypedMap UInt32 ν} (keyed : view.Keyed) {error : MapError}
    (unreadable : view.Unreadable error) : view.snapshot.StopsAtLookup error := by
  have onwards (before : List ν) (first count : Nat) :
      (view.valuesFrom before first count).StopsAtLookup error := by
    induction count generalizing before first with
    | zero => exact Attempt.stopsAtLookup_pure _
    | succ count ih => exact (keyed.get_stops unreadable _).bind fun _ => ih _ _
  exact onwards [] 0 view.capacity

end TypedMap

/-! Views of single values. -/

namespace Descriptor

/-- Whether one value is all that a map exchanges for an element. -/
def HoldsSingles (map : Descriptor) : Prop :=
  map.kind.isPerCpu = true → map.cpus = 1 ∧ slotAlignment ∣ map.valueSize

theorem bufferSize_eq_valueSize_iff {map : Descriptor} (values : map.valueSize = Element.size α)
    (positive : 0 < Element.size α) : map.bufferSize = map.valueSize ↔ map.HoldsSingles := by
  have fits := slotsFit_of_values values
  by_cases shared : map.kind.isPerCpu = true
  · obtain ⟨filled, aligned, covers⟩ := (slotSize_isLeast fits.slot).1
    rw [fits.bufferSize_eq shared, HoldsSingles, imp_iff_right shared]
    constructor
    · intro same
      have one : map.cpus = 1 := by
        rcases Nat.lt_trichotomy map.cpus 1 with none | one | more
        · rw [Nat.lt_one_iff.1 none] at same
          omega
        · exact one
        · have twice : 2 * map.slotSize ≤ map.cpus * map.slotSize := Nat.mul_le_mul_right _ more
          omega
      rw [one, Nat.one_mul] at same
      exact ⟨one, same ▸ aligned⟩
    · rintro ⟨one, aligned⟩
      rw [one, Nat.one_mul]
      exact slotSize_of_aligned fits (by omega) (Nat.mod_eq_zero_of_dvd aligned)
  · rw [bufferSize_of_single (Bool.eq_false_iff.2 shared)]
    exact iff_of_true rfl fun impossible => absurd impossible shared

end Descriptor

/-- What becomes of calls that exchange single values with a map: they meet no error about sizes where
one value is a whole element, and nothing is read or written where it would be a part of one. -/
structure SingleSizes (map : Descriptor) (attempt : ι → Attempt Unit) (transfer : ι → Transfer) :
    Prop where
  whole : map.HoldsSingles ↔ map.bufferSize = map.valueSize
  fits : map.HoldsSingles → SizesFit attempt
  refuses : ¬map.HoldsSingles → RefusesElements attempt transfer map.valueSize map.bufferSize

namespace TypedMap

namespace Keyed

variable {view : TypedMap κ ν} (keyed : view.Keyed)
include keyed

theorem ends_of_fits {read : Bytes → ν} (fits : view.Fits read)
    {reason : ViewCall κ ν → MapError → Prop}
    (spares : ∀ call error, error.SparesSizes → reason call error)
    (clears : ∀ budget, (view.clear budget).Ends (fun _ => True) (reason (.clear budget)))
    (packs : ∀ value bytes, view.content.pack value = .ok bytes →
      bytes.length = view.map.bufferSize)
    (refused : ∀ key value flags error, view.content.pack value = .error error →
      reason (.updateWith key value flags) error ∧ reason (.update key value) error)
    (call : ViewCall κ ν) : (call.attempt view).Ends (fun _ => True) (reason call) := by
  refine keyed.attempt_ends spares clears ?_ ?_ call
  · intro bytes error fills failed
    rw [fits.values bytes fills] at failed
    cases failed
  · intro key value flags
    exact keyed.updateWith_ends (fun error spared => ⟨spares _ error spared, spares _ error spared⟩)
      (packs value) (refused key value flags) key flags

theorem ends_of_unreadable (clears : view.ClearsByKeys) {size room : Nat}
    (unreadable : view.Unreadable (.badValueSize size room))
    (refused : ∀ key value flags,
      (view.updateWith key value flags).run = .done (.error (.badValueSize room size)))
    (call : ViewCall κ ν) : (call.attempt view).Ends (fun _ => True) fun error =>
      error.isKeySize = false ∧ (error.isValueSize = true → call.transfer ≠ .neither) := by
  refine keyed.attempt_ends (fun call _ spares => spares.excused (call.transfer ≠ .neither))
    ?_ ?_ ?_ call
  · intro budget
    exact (clear_ends clears budget).mono (fun _ => id) fun _ spares => spares.excused _
  · intro bytes error fills failed
    rw [unreadable bytes fills] at failed
    obtain rfl := Except.error.inj failed
    exact ⟨fun _ => ⟨rfl, fun _ => nofun⟩, fun _ => ⟨rfl, fun _ => nofun⟩⟩
  · intro key value flags
    exact Attempt.ends_of_run (refused key value flags) ⟨⟨rfl, fun _ => nofun⟩, rfl, fun _ => nofun⟩

end Keyed

section

variable {map : Descriptor} {family : Family} {clearing : Clearing} {summary : Descriptor → String}
  {view : TypedMap κ α} (keyed : ∀ kind ∈ family.kinds, kind.isKeyless = false)
  (made : single κ α family clearing summary map = .ok view)
include keyed made

theorem keyed_of_single : view.Keyed := by
  obtain ⟨⟨listed, keys, -⟩, rfl⟩ := single_eq_ok.1 made
  exact ⟨keyed _ listed, keys⟩

theorem single_updateWith_refused (part : map.bufferSize ≠ map.valueSize) (key : κ) (value : α)
    (flags : UInt64) : (view.updateWith key value flags).run =
      .done (.error (.badValueSize map.bufferSize map.valueSize)) := by
  have fits := (keyed_of_single keyed made).callKeySize key
  obtain ⟨⟨-, -, values⟩, rfl⟩ := single_eq_ok.1 made
  have exact : (Element.encode value).length = map.valueSize := by
    rw [Element.encode_length, values]
  have refused := Descriptor.update_refused fits (exact.symm ▸ part.symm) flags
  rwa [exact] at refused

omit keyed in
theorem single_unreadable (part : map.bufferSize ≠ map.valueSize) :
    view.Unreadable (.badValueSize map.valueSize map.bufferSize) := by
  obtain ⟨⟨-, -, values⟩, rfl⟩ := single_eq_ok.1 made
  intro bytes fills
  rw [values] at part ⊢
  simp only [Content.single, readElement, checkLength, fills, if_neg part]
  rfl

theorem single_ends (whole : map.bufferSize = map.valueSize) {reason : ViewCall κ α → MapError → Prop}
    (spares : ∀ call error, error.SparesSizes → reason call error)
    (clears : ∀ budget, (view.clear budget).Ends (fun _ => True) (reason (.clear budget)))
    (call : ViewCall κ α) : (call.attempt view).Ends (fun _ => True) (reason call) := by
  have own := keyed_of_single keyed made
  obtain ⟨rfl, fits⟩ := fits_of_single whole made
  obtain ⟨⟨-, -, values⟩, same⟩ := single_eq_ok.1 made
  refine own.ends_of_fits fits spares clears ?_ ?_ call
  · intro value bytes packed
    rw [← same] at packed
    obtain rfl := Except.ok.inj packed
    rw [Element.encode_length, whole, values]
  · intro key value flags error refused
    rw [← same] at refused
    cases refused

theorem single_fits (whole : map.bufferSize = map.valueSize) (clears : view.ClearsByKeys)
    (call : ViewCall κ α) : (call.attempt view).Ends (fun _ => True) SparesSizes :=
  single_ends keyed made whole (fun _ _ => id) (clear_ends clears) call

theorem single_sizes (positive : 0 < Element.size α) (clears : view.ClearsByKeys) :
    SingleSizes map (ViewCall.attempt view) ViewCall.transfer := by
  have values := (single_eq_ok.1 made).1.2.2
  have whole := Descriptor.bufferSize_eq_valueSize_iff values positive
  refine ⟨whole.symm, ?_, ?_⟩
  · intro holds
    exact Attempt.failsOnly_of_ends (single_fits keyed made (whole.2 holds) clears)
  · intro parted
    have part : map.bufferSize ≠ map.valueSize := fun same => parted (whole.1 same)
    have refused := single_updateWith_refused keyed made part
    have own := keyed_of_single keyed made
    have unreadable := single_unreadable made part
    constructor
    · exact Attempt.failsOnly_of_ends (own.ends_of_unreadable clears unreadable refused)
    · intro call writes
      cases call with
      | update key value => exact refused key value 0
      | updateWith key value flags => exact refused key value flags
      | _ => cases writes
    · intro call reads
      cases call with
      | get key =>
          exact (own.get_stops unreadable key).bind fun _ => Attempt.stopsAtLookup_pure _
      | enumerate budget =>
          exact (own.enumerate_stops unreadable budget).bind fun _ => Attempt.stopsAtLookup_pure _
      | _ => cases reads

end

theorem array_sizes {map : Descriptor} {view : TypedMap UInt32 α} (positive : 0 < Element.size α)
    (made : array α map = .ok view) :
    SingleSizes map (ArrayCall.attempt view) ArrayCall.transfer := by
  have keyed : ∀ kind ∈ Family.array.kinds, kind.isKeyless = false := by decide
  have own := keyed_of_single keyed made
  have values := (single_eq_ok.1 made).1.2.2
  have whole := Descriptor.bufferSize_eq_valueSize_iff values positive
  have clears : view.ClearsByKeys := by
    obtain ⟨-, rfl⟩ := single_eq_ok.1 made
    exact nofun
  refine ⟨whole.symm, ?_, ?_⟩
  · intro holds
    refine Attempt.failsOnly_of_ends ?_
    intro call
    cases call with
    | element call => exact single_fits keyed made (whole.2 holds) clears call
    | snapshot =>
        obtain ⟨rfl, fits⟩ := fits_of_single (whole.2 holds) made
        refine (own.snapshot_ends (fun _ => id) ?_).bind fun _ _ => Attempt.ends_pure trivial
        intro bytes error fills failed
        rw [fits.values bytes fills] at failed
        cases failed
  · intro parted
    have part : map.bufferSize ≠ map.valueSize := fun same => parted (whole.1 same)
    have unreadable := single_unreadable made part
    have refused := single_updateWith_refused keyed made part
    have elements := (single_sizes keyed made positive clears).refuses parted
    constructor
    · refine Attempt.failsOnly_of_ends ?_
      intro call
      cases call with
      | element call => exact own.ends_of_unreadable clears unreadable refused call
      | snapshot =>
          refine Attempt.Ends.bind (own.snapshot_ends ?_ ?_) fun _ _ => Attempt.ends_pure trivial
          · exact fun error spares => spares.excused _
          · intro bytes error fills failed
            rw [unreadable bytes fills] at failed
            obtain rfl := Except.error.inj failed
            exact ⟨rfl, fun _ => nofun⟩
    · intro call writes
      cases call with
      | element call => exact elements.writes call writes
      | snapshot => cases writes
    · intro call reads
      cases call with
      | element call => exact elements.reads call reads
      | snapshot =>
          exact (own.snapshot_stops unreadable).bind fun _ => Attempt.stopsAtLookup_pure _

end TypedMap

/-! Views of a value for each CPU. -/

structure RowSizes (cpus : Nat) (view : TypedMap κ (List α)) : Prop where
  fails : Attempt.FailsOnly (ViewCall.attempt view) fun call error =>
    error.isKeySize = false ∧ (error.isValueSize = true → call.IsRagged cpus)
  ragged : ∀ key values flags, values.length ≠ cpus →
    ∀ call ∈ [ViewCall.update key values, .updateWith key values flags],
      (call.attempt view).run = .done (.error (.badValueSize cpus values.length))

namespace TypedMap

variable {map : Descriptor} {family : Family}

theorem perCpu_sizes {summary : Descriptor → String} {view : TypedMap κ (List α)}
    (keyed : ∀ kind ∈ family.kinds, kind.isKeyless = false ∧ kind.isPerCpu = true)
    (positive : 0 < Element.size α) (made : perCpu κ α family summary map = .ok view) :
    RowSizes map.cpus view := by
  have ragged (key : κ) (row : List α) (flags : UInt64) (differs : row.length ≠ map.cpus) :
      ∀ call ∈ [ViewCall.update key row, .updateWith key row flags],
        (call.attempt view).run = .done (.error (.badValueSize map.cpus row.length)) := by
    rintro call (_ | ⟨_, _ | ⟨_, ⟨⟩⟩⟩)
    · exact updateWith_perCpu_refused made key differs 0
    · exact updateWith_perCpu_refused made key differs flags
  obtain ⟨⟨listed, keys, aligned, values⟩, same⟩ := perCpu_eq_ok.1 made
  obtain ⟨buffer, word⟩ :=
    Descriptor.bufferSize_of_aligned (keyed _ listed).2 values positive aligned
  obtain ⟨rfl, fits⟩ := fits_of_perCpu (keyed _ listed).2 positive made
  have own : view.Keyed := ⟨(keyed _ listed).1, keys⟩
  have clears : view.ClearsByKeys := by
    rw [← same]
    exact nofun
  refine ⟨Attempt.failsOnly_of_ends (own.ends_of_fits fits ?_ ?_ ?_ ?_), ragged⟩
  · exact fun call _ spares => spares.excused (call.IsRagged view.map.cpus)
  · intro budget
    exact (clear_ends clears budget).mono (fun _ => id) fun _ spares => spares.excused _
  · intro row bytes packed
    rw [← same] at packed
    by_cases count : row.length = view.map.cpus
    · simp only [Content.perCpu, count, ne_eq, not_true_eq_false, if_false] at packed
      rw [← Except.ok.inj packed, writeSlots_length, Nat.max_self, count, buffer,
        machineSize_of_lt word]
    · simp only [Content.perCpu, count, ne_eq, not_false_eq_true, if_true] at packed
      cases packed
  · intro key row flags error refused
    rw [← same] at refused
    by_cases count : row.length = view.map.cpus
    · simp only [Content.perCpu, count, ne_eq, not_true_eq_false, if_false] at refused
      cases refused
    · simp only [Content.perCpu, count, ne_eq, not_false_eq_true, if_true] at refused
      obtain rfl := Except.error.inj refused
      exact ⟨⟨rfl, fun _ => count⟩, rfl, fun _ => count⟩

end TypedMap

/-! Maps in maps, of which the arrays are cleared by index. -/

/-- How calls on a view of maps fail for sizes: only where an array of them has keys that are no
indices, and there only to clear it, with which no call is made. -/
structure MapInMapSizes (view : TypedMap κ Int32) : Prop where
  fits : (view.map.kind = .arrayOfMaps → view.map.keySize = 4 ∨ view.map.capacity = 0) →
    SizesFit (ViewCall.attempt view)
  others : Attempt.FailsOnly (ViewCall.attempt view) fun call error =>
    error.SparesSizes ∨ ∃ budget, call = .clear budget
  refuses : view.map.kind = .arrayOfMaps → view.map.keySize ≠ 4 → view.map.capacity ≠ 0 →
    ∀ budget, (view.clear budget).run = .done (.error (.badKeySize view.map.keySize 4))

theorem clearIndices_refused {map : Descriptor} (keys : map.keySize ≠ 4)
    (slots : map.capacity ≠ 0) :
    (clearIndices map).run = .done (.error (.badKeySize map.keySize 4)) := by
  have differs : (wordBytes 4 0).length ≠ map.keySize := keys.symm
  obtain ⟨count, filled⟩ := Nat.exists_eq_succ_of_ne_zero
    (fun none => slots (UInt32.toNat_inj.1 none) : map.capacity.toNat ≠ 0)
  rw [clearIndices, filled, clearFrom, deletePresent, Descriptor.delete,
    Descriptor.checkKey_of_length_ne differs]
  rfl

namespace TypedMap

theorem mapInMap_sizes {map : Descriptor} {view : TypedMap κ Int32}
    (made : mapInMap κ map = .ok view) : MapInMapSizes view := by
  have plain : ∀ kind ∈ Family.mapInMap.kinds,
      kind.isKeyless = false ∧ kind.isPerCpu = false := by decide
  have keyed : ∀ kind ∈ Family.mapInMap.kinds, kind.isKeyless = false :=
    fun kind listed => (plain kind listed).1
  have listed := (single_eq_ok.1 made).1.1
  have whole : map.bufferSize = map.valueSize :=
    Descriptor.bufferSize_of_single (plain _ listed).2
  obtain ⟨-, rfl⟩ := single_eq_ok.1 made
  constructor
  · intro words
    refine Attempt.failsOnly_of_ends (single_fits keyed made whole ?_)
    intro indexed
    by_cases arrays : map.kind = .arrayOfMaps
    · exact words arrays
    · simp [arrays] at indexed
  · refine Attempt.failsOnly_of_ends (single_ends keyed made whole (fun _ _ => .inl) ?_)
    intro budget
    exact Attempt.ends_of_forall (fun _ => trivial) (fun _ => .inr ⟨budget, rfl⟩) _
  · intro arrays keys slots budget
    dsimp only at arrays
    simp only [clear, arrays, if_true]
    rw [ExceptT.run_bind, clearIndices_refused keys slots]
    rfl

theorem plain_fits {map : Descriptor} {family : Family} {clearing : Clearing}
    {summary : Descriptor → String} {view : TypedMap κ α}
    (plain : ∀ kind ∈ family.kinds, kind.isKeyless = false ∧ kind.isPerCpu = false)
    (words : clearing = .byIndex → Element.size κ = 4)
    (made : single κ α family clearing summary map = .ok view) :
    SizesFit (ViewCall.attempt view) := by
  obtain ⟨⟨listed, keys, -⟩, same⟩ := single_eq_ok.1 made
  refine Attempt.failsOnly_of_ends (single_fits (fun kind inside => (plain kind inside).1) made
    (Descriptor.bufferSize_of_single (plain _ listed).2) ?_)
  rw [← same]
  exact fun indexed => .inl (keys.trans (words indexed))

end TypedMap

/-! Queues and stacks. -/

def QueueCall.attempt (container : SequenceMap α) : QueueCall α → Attempt Unit
  | push value flags => container.push value flags
  | pop => do let _ ← container.pop
  | head => do let _ ← container.head

namespace SequenceMap

theorem present_ends {room : Nat} (exact : room = Element.size α) {found : Option Bytes}
    (fills : HasLength room found) :
    (liftM (present found : Except MapError α) : Attempt α).Ends (fun _ => True) SparesSizes := by
  cases found with
  | none => exact Attempt.ends_throw ⟨rfl, rfl⟩
  | some bytes =>
      rw [present, readElement_of_length ((fills bytes rfl).trans exact)]
      exact Attempt.ends_pure trivial

theorem sizesFit {map : Descriptor} {container : SequenceMap α}
    (made : ofMap α map = .ok container) : SizesFit (QueueCall.attempt container) := by
  obtain ⟨rfl, listed, values⟩ := ofMap_eq_ok made
  have plain : ∀ kind ∈ Family.queueStack.kinds,
      kind.isKeyless = true ∧ kind.isPerCpu = false := by decide
  obtain ⟨keyless, single⟩ := plain _ listed
  have fits : ([] : Bytes).length = container.map.callKeySize :=
    (Descriptor.callKeySize_of_keyless keyless).symm
  have room : container.map.bufferSize = Element.size α :=
    (Descriptor.bufferSize_of_single single).trans values
  refine Attempt.failsOnly_of_ends ?_
  intro call
  cases call with
  | push value flags =>
      exact Descriptor.update_ends fits ((Element.encode_length value).trans room.symm) flags
  | pop =>
      have popped : container.pop.Ends (fun _ => True) SparesSizes :=
        (Descriptor.take_ends fits).bind fun _ => present_ends room
      exact popped.bind fun _ _ => Attempt.ends_pure trivial
  | head =>
      have peeked : container.head.Ends (fun _ => True) SparesSizes :=
        (Descriptor.lookup_ends fits).bind fun _ => present_ends room
      exact peeked.bind fun _ _ => Attempt.ends_pure trivial

end SequenceMap

/-- Which errors about sizes the calls on the views of a map can meet, by their families. -/
structure ViewSizes (map : Descriptor) : Prop where
  array : ∀ (α : Type) [Element α] (view : TypedMap UInt32 α), 0 < Element.size α →
    TypedMap.array α map = .ok view →
      SingleSizes map (ArrayCall.attempt view) ArrayCall.transfer
  perCpuArray : ∀ (α : Type) [Element α] (view : TypedMap UInt32 (List α)), 0 < Element.size α →
    TypedMap.perCpuArray α map = .ok view → RowSizes map.cpus view
  hash : ∀ (κ α : Type) [Element κ] [Element α] (view : TypedMap κ α), 0 < Element.size α →
    TypedMap.hash κ α map = .ok view →
      SingleSizes map (ViewCall.attempt view) ViewCall.transfer
  perCpuHash : ∀ (κ α : Type) [Element κ] [Element α] (view : TypedMap κ (List α)),
    0 < Element.size α → TypedMap.perCpuHash κ α map = .ok view → RowSizes map.cpus view
  mapInMap : ∀ (κ : Type) [Element κ] (view : TypedMap κ Int32),
    TypedMap.mapInMap κ map = .ok view → MapInMapSizes view
  references : ∀ (family : Family) (view : TypedMap UInt32 Int32),
    family ∈ [Family.progArray, .cgroupArray, .devmap, .xskmap, .sockmap] →
      TypedMap.references family map = .ok view → SizesFit (ViewCall.attempt view)
  sockhash : ∀ (κ : Type) [Element κ] (view : TypedMap κ Int32),
    TypedMap.sockhash κ map = .ok view → SizesFit (ViewCall.attempt view)
  localStorage : ∀ (α : Type) [Element α] (family : Family) (view : TypedMap Int32 α),
    family ∈ [Family.skStorage, .inodeStorage, .taskStorage] →
      TypedMap.localStorage α family map = .ok view → SizesFit (ViewCall.attempt view)
  cgroupStorage : ∀ (α : Type) [Element α] (view : TypedMap CgroupKey α),
    TypedMap.cgroupStorage α map = .ok view → SizesFit (ViewCall.attempt view)
  perCpuCgroupStorage : ∀ (α : Type) [Element α] (view : TypedMap CgroupKey (List α)),
    0 < Element.size α → TypedMap.perCpuCgroupStorage α map = .ok view → RowSizes map.cpus view
  queue : ∀ (α : Type) [Element α] (container : SequenceMap α),
    SequenceMap.ofMap α map = .ok container → SizesFit (QueueCall.attempt container)

theorem Descriptor.viewSizes (map : Descriptor) : ViewSizes map := by
  constructor
  case array => exact fun α _ view => TypedMap.array_sizes
  case perCpuArray => exact fun α _ view => TypedMap.perCpu_sizes (by decide)
  case hash =>
    intro κ α _ _ view positive made
    refine TypedMap.single_sizes (by decide) made positive ?_
    obtain ⟨-, rfl⟩ := TypedMap.single_eq_ok.1 made
    exact nofun
  case perCpuHash => exact fun κ α _ _ view => TypedMap.perCpu_sizes (by decide)
  case mapInMap => exact fun κ _ view => TypedMap.mapInMap_sizes
  case references =>
    intro family view member made
    have plain : ∀ family ∈ [Family.progArray, .cgroupArray, .devmap, .xskmap, .sockmap],
        ∀ kind ∈ family.kinds, kind.isKeyless = false ∧ kind.isPerCpu = false := by decide
    exact TypedMap.plain_fits (plain family member) (fun _ => rfl) made
  case sockhash => exact fun κ _ view => TypedMap.plain_fits (by decide) nofun
  case localStorage =>
    intro α _ family view member made
    have plain : ∀ family ∈ [Family.skStorage, .inodeStorage, .taskStorage],
        ∀ kind ∈ family.kinds, kind.isKeyless = false ∧ kind.isPerCpu = false := by decide
    exact TypedMap.plain_fits (plain family member) (by nofun) made
  case cgroupStorage => exact fun α _ view => TypedMap.plain_fits (by decide) nofun
  case perCpuCgroupStorage => exact fun α _ view => TypedMap.perCpu_sizes (by decide)
  case queue => exact fun α _ container => SequenceMap.sizesFit

end KernelMaps
