import KernelMaps.Proofs.Map.Attempts
import KernelMaps.Proofs.Map.Queues
import KernelMaps.Proofs.Map.Sizes
import KernelMaps.Proofs.Map.Slots

/-!
Operations on one element of a map, for each sort of handle: what they accept, that they make one
call then and none otherwise, and that the map stays as it was wherever they fail.
-/

namespace KernelMaps

open Attempt (Quiet Single CallsOnce Atomic Taking)

namespace Descriptor

variable (map : Descriptor)

def sentKey (key : Bytes) : Option Bytes :=
  if map.kind.isKeyless then none else some key

variable {map} {key value : Bytes}

theorem keyArgument_of_length (fits : key.length = map.callKeySize) :
    map.keyArgument key = .ok (map.sentKey key) :=
  if_neg (not_not_intro fits)

theorem keyArgument_of_length_ne (differs : key.length ≠ map.callKeySize) :
    map.keyArgument key = .error (.badKeySize map.callKeySize key.length) :=
  if_pos differs

theorem checkKey_of_length_ne (differs : key.length ≠ map.keySize) :
    map.checkKey key = .error (.badKeySize map.keySize key.length) :=
  if_pos differs

theorem lookup_single (fits : key.length = map.callKeySize) :
    (map.lookup key).Single (.lookup (map.sentKey key) map.bufferSize) := by
  rw [lookup, keyArgument_of_length fits]
  exact ⟨_, rfl, fun _ => ⟨_, rfl, .inl trivial⟩⟩

theorem lookup_quiet (differs : key.length ≠ map.callKeySize) : (map.lookup key).Quiet := by
  rw [lookup, keyArgument_of_length_ne differs]
  exact Attempt.quiet_throw _

theorem update_single (fits : key.length = map.callKeySize) (fills : value.length = map.bufferSize)
    (flags : UInt64) :
    (map.update key value flags).Single (.update (map.sentKey key) value flags) := by
  simp only [update, keyArgument_of_length fits, fills, ne_eq, not_true_eq_false, if_false]
  refine ⟨_, rfl, ?_⟩
  intro reply
  cases reply with
  | ok bytes => exact ⟨.ok (), rfl, .inr fun _ _ => ⟨(), rfl⟩⟩
  | error errno =>
      refine ⟨_, rfl, .inr ?_⟩
      intro _ granted
      contradiction

theorem update_quiet (refused : ¬(key.length = map.callKeySize ∧ value.length = map.bufferSize))
    (flags : UInt64) : (map.update key value flags).Quiet := by
  by_cases fits : key.length = map.callKeySize
  · have differs : value.length ≠ map.bufferSize := fun fills => refused ⟨fits, fills⟩
    simp only [update, keyArgument_of_length fits, differs, ne_eq, not_false_eq_true, if_true]
    exact Attempt.quiet_throw _
  · rw [update, keyArgument_of_length_ne fits]
    exact Attempt.quiet_throw _

theorem delete_single (fits : key.length = map.keySize) :
    (map.delete key).Single (.delete key) := by
  have checked : map.checkKey key = .ok () := checkKey_eq_ok.2 fits
  rw [delete, checked]
  refine ⟨_, rfl, ?_⟩
  intro reply
  cases reply with
  | ok bytes => exact ⟨.ok (), rfl, .inr fun _ _ => ⟨(), rfl⟩⟩
  | error errno =>
      obtain ⟨outcome, ends⟩ : Quiet (if errno = .noEntry then throw .keyNotFound
          else throw (.call .deletingValue (.system errno)) : Attempt Unit) := by
        split <;> exact Attempt.quiet_throw _
      refine ⟨outcome, ends, .inr ?_⟩
      intro _ granted
      contradiction

theorem delete_quiet (differs : key.length ≠ map.keySize) : (map.delete key).Quiet := by
  rw [delete, checkKey_of_length_ne differs]
  exact Attempt.quiet_throw _

theorem take_single (fits : key.length = map.callKeySize) :
    (map.take key).Single (.take (map.sentKey key) map.bufferSize) := by
  rw [take, keyArgument_of_length fits]
  refine ⟨_, rfl, ?_⟩
  intro reply
  refine ⟨_, rfl, .inr ?_⟩
  rintro bytes rfl
  exact ⟨_, rfl⟩

theorem take_quiet (differs : key.length ≠ map.callKeySize) : (map.take key).Quiet := by
  rw [take, keyArgument_of_length_ne differs]
  exact Attempt.quiet_throw _

theorem stepKey_single (map : Descriptor) (key : Option Bytes) :
    (map.stepKey key).Single (.nextKey key map.keySize) :=
  ⟨_, rfl, fun _ => ⟨_, rfl, .inl trivial⟩⟩

theorem nextKey_single (fits : key.length = map.keySize) :
    (map.nextKey key).Single (.nextKey (some key) map.keySize) := by
  have checked : map.checkKey key = .ok () := checkKey_eq_ok.2 fits
  rw [nextKey, checked]
  exact map.stepKey_single (some key)

theorem nextKey_quiet (differs : key.length ≠ map.keySize) : (map.nextKey key).Quiet := by
  rw [nextKey, checkKey_of_length_ne differs]
  exact Attempt.quiet_throw _

theorem keyOfText_eq_ok {text : String} {bytes : Bytes} :
    map.keyOfText text = .ok bytes ↔ map.keyCodec.parse text map.keySize = .ok bytes := by
  rw [keyOfText]
  cases map.keyCodec.parse text map.keySize <;> simp [Except.mapError]

theorem valueOfText_eq_ok {text : String} {bytes : Bytes} :
    map.valueOfText text = .ok bytes ↔ map.valueCodec.parse text map.valueSize = .ok bytes := by
  rw [valueOfText]
  cases map.valueCodec.parse text map.valueSize <;> simp [Except.mapError]

theorem keyOfText_length {text : String} {bytes : Bytes} (read : map.keyOfText text = .ok bytes) :
    bytes.length = map.keySize :=
  map.keyCodec.parse_length _ _ _ (keyOfText_eq_ok.1 read)

theorem valueOfText_length {text : String} {bytes : Bytes}
    (read : map.valueOfText text = .ok bytes) : bytes.length = map.valueSize :=
  map.valueCodec.parse_length _ _ _ (valueOfText_eq_ok.1 read)

/-- What the operations on one element come down to, each with what it accepts. -/
structure OneCall (map : Descriptor) : Prop where
  lookup : ∀ key, Atomic (map.lookup key) (key.length = map.callKeySize)
  update : ∀ key value flags, Atomic (map.update key value flags)
    (key.length = map.callKeySize ∧ value.length = map.bufferSize)
  delete : ∀ key, Atomic (map.delete key) (key.length = map.keySize)
  take : ∀ key, Taking (map.take key) (key.length = map.callKeySize) (map.sentKey key) map.bufferSize
  firstKey : Atomic map.firstKey True
  nextKey : ∀ key, Atomic (map.nextKey key) (key.length = map.keySize)

theorem oneCall (map : Descriptor) : map.OneCall where
  lookup _ := .of_cases lookup_quiet fun fits => ⟨_, id, lookup_single fits⟩
  update _ _ flags := .of_cases (fun refused => update_quiet refused flags)
    fun accepted => ⟨_, id, update_single accepted.1 accepted.2 flags⟩
  delete _ := .of_cases delete_quiet fun fits => ⟨_, id, delete_single fits⟩
  take _ := .of_cases take_quiet take_single
  firstKey := .of_cases (fun never => (never trivial).elim) fun _ =>
    ⟨_, id, map.stepKey_single none⟩
  nextKey _ := .of_cases nextKey_quiet fun fits => ⟨_, id, nextKey_single fits⟩

end Descriptor

namespace Table

variable (table : Table)

def ReadsKey (key : String) : Prop :=
  ∃ bytes, table.map.keyOfText key = .ok bytes ∧ bytes.length = table.map.callKeySize

def ReadsValue (value : String) : Prop :=
  ∃ bytes, table.map.valueOfText value = .ok bytes

def ReadsShare (value : String) : Prop :=
  ∃ bytes, table.shareOfText value = .ok bytes

structure OneCall (table : Table) : Prop where
  get : ∀ key, Atomic (table.get key) (table.map.kind.isPerCpu = false ∧ table.ReadsKey key)
  getPerCpu : ∀ key,
    Atomic (table.getPerCpu key) (table.map.kind.isPerCpu = true ∧ table.ReadsKey key)
  update : ∀ key value, Atomic (table.update key value)
    (table.map.kind.isPerCpu = false ∧ table.ReadsKey key ∧ table.ReadsValue value)
  updatePerCpu : ∀ key values, Atomic (table.updatePerCpu key values)
    (table.map.kind.isPerCpu = true ∧ values.length = table.map.cpus ∧
      (∀ value ∈ table.reached values, table.ReadsShare value) ∧ table.ReadsKey key)
  updateRow : table.map.SlotsFit → ∀ key values, Atomic (table.updatePerCpu key values)
    (table.map.kind.isPerCpu = true ∧ values.length = table.map.cpus ∧
      (∀ value ∈ values, table.ReadsValue value) ∧ table.ReadsKey key)
  remove : ∀ key, Atomic (table.remove key) (∃ bytes, table.map.keyOfText key = .ok bytes)

variable {table}

theorem lookup_quiet {key : String} (refused : ¬table.ReadsKey key) : (table.lookup key).Quiet := by
  rw [lookup]
  cases read : table.map.keyOfText key with
  | error error => exact Attempt.quiet_throw error
  | ok bytes =>
      have differs : bytes.length ≠ table.map.callKeySize := fun fits => refused ⟨bytes, read, fits⟩
      refine (Descriptor.lookup_quiet differs).bind ?_
      intro found
      cases found with
      | none => exact Attempt.quiet_throw _
      | some value => exact Attempt.quiet_pure value

theorem lookup_single {key : String} {bytes : Bytes} (read : table.map.keyOfText key = .ok bytes)
    (fits : bytes.length = table.map.callKeySize) :
    (table.lookup key).Single (.lookup (table.map.sentKey bytes) table.map.bufferSize) := by
  rw [lookup, read]
  refine (Descriptor.lookup_single fits).bind trivial ?_
  intro found
  cases found with
  | none => exact Attempt.quiet_throw _
  | some value => exact Attempt.quiet_pure value

variable (table)

theorem reading_atomic {α : Type} {next : Bytes → Attempt α} (silent : ∀ value, (next value).Quiet)
    (key : String) : Atomic (table.lookup key >>= next) (table.ReadsKey key) := by
  refine .of_cases (fun refused => (lookup_quiet refused).bind silent) ?_
  rintro ⟨bytes, read, fits⟩
  exact ⟨_, id, (lookup_single read fits).bind trivial silent⟩

theorem get_atomic (key : String) :
    Atomic (table.get key) (table.map.kind.isPerCpu = false ∧ table.ReadsKey key) := by
  rw [get]
  cases perCpu : table.map.kind.isPerCpu with
  | true => exact .of_refused (Attempt.quiet_throw _) (by simp)
  | false =>
      have reading := table.reading_atomic (fun value => Attempt.quiet_liftM
        (table.map.valueText table.factor value)) key
      exact reading.congr (by simp)

theorem getPerCpu_atomic (key : String) :
    Atomic (table.getPerCpu key) (table.map.kind.isPerCpu = true ∧ table.ReadsKey key) := by
  rw [getPerCpu]
  cases perCpu : table.map.kind.isPerCpu with
  | false => exact .of_refused (Attempt.quiet_throw _) (by simp)
  | true =>
      have reading := table.reading_atomic (fun value => Attempt.quiet_liftM
        (table.shareTexts value)) key
      exact reading.congr (by simp)

theorem update_atomic (key value : String) : Atomic (table.update key value)
    (table.map.kind.isPerCpu = false ∧ table.ReadsKey key ∧ table.ReadsValue value) := by
  rw [update]
  cases perCpu : table.map.kind.isPerCpu with
  | true => exact .of_refused (Attempt.quiet_throw _) (by simp)
  | false =>
      cases readKey : table.map.keyOfText key with
      | error error => exact .of_refused (Attempt.quiet_throw error) (by simp [ReadsKey, readKey])
      | ok keyBytes =>
          cases readValue : table.map.valueOfText value with
          | error error =>
              exact .of_refused (Attempt.quiet_throw error) (by simp [ReadsValue, readValue])
          | ok bytes =>
              have fills : bytes.length = table.map.bufferSize := by
                rw [Descriptor.bufferSize_of_single perCpu, Descriptor.valueOfText_length readValue]
              refine (table.map.oneCall.update keyBytes bytes 0).congr ?_
              simp [ReadsKey, ReadsValue, readKey, readValue, fills]

theorem updatePerCpu_atomic (key : String) (values : List String) :
    Atomic (table.updatePerCpu key values)
      (table.map.kind.isPerCpu = true ∧ values.length = table.map.cpus ∧
        (∀ value ∈ table.reached values, table.ReadsShare value) ∧ table.ReadsKey key) := by
  rw [updatePerCpu, Attempt.mapM_liftM]
  simp only [ReadsShare, ← exists_mapM_eq_ok]
  cases perCpu : table.map.kind.isPerCpu with
  | false => exact .of_refused (Attempt.quiet_throw _) (by simp)
  | true =>
      by_cases count : values.length = table.map.cpus
      · simp only [count, ne_eq, not_true_eq_false, if_false]
        cases readValues : (table.reached values).mapM table.shareOfText with
        | error error => exact .of_refused (Attempt.quiet_throw error) (by simp)
        | ok shares =>
            cases readKey : table.map.keyOfText key with
            | error error =>
                exact .of_refused (Attempt.quiet_throw error) (by simp [ReadsKey, readKey])
            | ok keyBytes =>
                refine (table.map.oneCall.update keyBytes _ 0).congr ?_
                simp [ReadsKey, readKey]
      · simp only [count, ne_eq, not_false_eq_true, if_true]
        exact .of_refused (Attempt.quiet_throw _) (by simp)

section

variable {table}

theorem updatePerCpu_eq {key : Bytes} {keyText : String} {texts : List String} {shares : List Bytes}
    (perCpu : table.map.kind.isPerCpu = true) (readKey : table.map.keyOfText keyText = .ok key)
    (count : texts.length = table.map.cpus)
    (readValues : (table.reached texts).mapM table.shareOfText = .ok shares) :
    table.updatePerCpu keyText texts = table.map.update key
      (fitted table.map.bufferSize (shares.flatMap fun share => fitted table.map.slotSize share))
      0 := by
  rw [updatePerCpu, perCpu, Attempt.mapM_liftM, readValues, readKey]
  simp only [count, ne_eq, not_true_eq_false, if_false]
  rfl

variable (fits : table.map.SlotsFit)
include fits

theorem shareOfText_of_fits (text : String) :
    table.shareOfText text = table.map.valueOfText text :=
  if_neg (Nat.not_lt.2 fits.valueSize_le_slotSize)

theorem reached_of_fits (perCpu : table.map.kind.isPerCpu = true) {values : List String}
    (count : values.length = table.map.cpus) : table.reached values = values := by
  rw [reached, fits.bufferSize_eq perCpu, Nat.mul_div_cancel _ Descriptor.slotSize_pos, ← count,
    List.take_length]

theorem updatePerCpu_of_fits {key : Bytes} {keyText : String} {texts : List String}
    {shares : List Bytes} (perCpu : table.map.kind.isPerCpu = true)
    (readKey : table.map.keyOfText keyText = .ok key) (count : texts.length = table.map.cpus)
    (readValues : texts.mapM table.map.valueOfText = .ok shares) :
    table.updatePerCpu keyText texts =
      table.map.update key (shares.flatMap fun share => fitted table.map.slotSize share) 0 := by
  have read : (table.reached texts).mapM table.shareOfText = .ok shares := by
    rwa [reached_of_fits fits perCpu count, funext (shareOfText_of_fits fits)]
  have filled : (shares.flatMap fun share => fitted table.map.slotSize share).length =
      table.map.bufferSize := by
    rw [flatMap_fitted_length, mapM_length readValues, count, fits.bufferSize_eq perCpu]
  rw [updatePerCpu_eq perCpu readKey count read, fitted_of_length _ _ filled]

theorem updateRow_atomic (key : String) (values : List String) :
    Atomic (table.updatePerCpu key values)
      (table.map.kind.isPerCpu = true ∧ values.length = table.map.cpus ∧
        (∀ value ∈ values, table.ReadsValue value) ∧ table.ReadsKey key) := by
  refine (table.updatePerCpu_atomic key values).congr ?_
  refine and_congr_right fun perCpu => and_congr_right fun count => ?_
  simp only [reached_of_fits fits perCpu count, ReadsShare, shareOfText_of_fits fits, ReadsValue]

end

theorem remove_atomic (key : String) :
    Atomic (table.remove key) (∃ bytes, table.map.keyOfText key = .ok bytes) := by
  rw [remove]
  cases read : table.map.keyOfText key with
  | error error => exact .of_refused (Attempt.quiet_throw error) (by simp)
  | ok bytes =>
      refine (table.map.oneCall.delete bytes).congr ?_
      simp [Descriptor.keyOfText_length read]

theorem oneCall : table.OneCall where
  get := table.get_atomic
  getPerCpu := table.getPerCpu_atomic
  update := table.update_atomic
  updatePerCpu := table.updatePerCpu_atomic
  updateRow fits := updateRow_atomic fits
  remove := table.remove_atomic

end Table

namespace TypedMap

variable {κ ν α : Type} [Element κ]

def Accepts (view : TypedMap κ ν) (value : ν) : Prop :=
  Element.size κ = view.map.callKeySize ∧
    ∃ bytes, view.content.pack value = .ok bytes ∧ bytes.length = view.map.bufferSize

structure OneCall (view : TypedMap κ ν) : Prop where
  get : ∀ key, Atomic (view.get key) (Element.size κ = view.map.callKeySize)
  update : ∀ key value, Atomic (view.update key value) (view.Accepts value)
  updateWith : ∀ key value flags, Atomic (view.updateWith key value flags) (view.Accepts value)
  remove : ∀ key, Atomic (view.remove key) (Element.size κ = view.map.keySize)

variable (view : TypedMap κ ν)

theorem get_atomic (key : κ) : Atomic (view.get key) (Element.size κ = view.map.callKeySize) := by
  let read (found : Option Bytes) : Attempt ν :=
    found.elim (throw .keyNotFound) fun bytes => liftM (view.content.unpack bytes)
  have silent (found : Option Bytes) : (read found).Quiet := by
    cases found with
    | none => exact Attempt.quiet_throw _
    | some bytes => exact Attempt.quiet_liftM _
  have asked : view.get key = view.map.lookup (Element.encode key) >>= read := by
    apply bind_congr
    intro found
    cases found <;> rfl
  rw [asked, ← Element.encode_length key]
  refine .of_cases ?_ ?_
  · intro differs
    exact (Descriptor.lookup_quiet differs).bind silent
  · intro fits
    exact ⟨_, id, (Descriptor.lookup_single fits).bind trivial silent⟩

theorem updateWith_atomic (key : κ) (value : ν) (flags : UInt64) :
    Atomic (view.updateWith key value flags) (view.Accepts value) := by
  rw [updateWith]
  cases packed : view.content.pack value with
  | error error => exact .of_refused (Attempt.quiet_throw error) (by simp [Accepts, packed])
  | ok bytes =>
      refine (view.map.oneCall.update (Element.encode key) bytes flags).congr ?_
      simp [Accepts, packed, Element.encode_length]

theorem oneCall : view.OneCall where
  get := view.get_atomic
  update key value := view.updateWith_atomic key value 0
  updateWith := view.updateWith_atomic
  remove key := (view.map.oneCall.delete (Element.encode key)).congr (by rw [Element.encode_length])

theorem updateWith_perCpu_refused [Element α] {family : Family} {summary : Descriptor → String}
    {map : Descriptor} {view : TypedMap κ (List α)}
    (made : perCpu κ α family summary map = .ok view) (key : κ) {values : List α}
    (differs : values.length ≠ map.cpus) (flags : UInt64) :
    (view.updateWith key values flags).run =
      .done (.error (.badValueSize map.cpus values.length)) := by
  obtain ⟨-, rfl⟩ := perCpu_eq_ok.1 made
  simp only [updateWith, Content.perCpu, if_pos differs]
  rfl

end TypedMap

namespace SequenceMap

variable {α : Type} [Element α]

structure OneCall (container : SequenceMap α) : Prop where
  push : ∀ value flags, Atomic (container.push value flags) True
  pop : Taking container.pop True none container.map.bufferSize
  head : Atomic container.head True

theorem pop_single {container : SequenceMap α} (keyless : container.map.kind.isKeyless = true)
    (room : container.map.bufferSize = Element.size α) :
    container.pop.Single (.take none container.map.bufferSize) := by
  rw [pop, Descriptor.take, Descriptor.keyArgument_of_keyless keyless]
  refine ⟨_, rfl, ?_⟩
  intro reply
  cases reply with
  | ok bytes =>
      have fills : (fitted container.map.bufferSize bytes).length = Element.size α := by
        rw [fitted_length, room]
      exact ⟨_, congrArg Access.done (readElement_of_length fills), .inr fun _ _ => ⟨_, rfl⟩⟩
  | error errno =>
      have missed := Attempt.quiet_liftM
        (Descriptor.handedOut .poppingValue container.map.bufferSize (.error errno))
      obtain ⟨outcome, ends⟩ := missed.bind fun found =>
        Attempt.quiet_liftM (present (α := α) found)
      refine ⟨outcome, ends, .inr ?_⟩
      intro _ granted
      contradiction

theorem oneCall {map : Descriptor} {container : SequenceMap α}
    (made : ofMap α map = .ok container) : container.OneCall := by
  obtain ⟨rfl, kind, values⟩ := ofMap_eq_ok made
  have plain : ∀ kind ∈ Family.queueStack.kinds,
      kind.isKeyless = true ∧ kind.isPerCpu = false := by decide
  obtain ⟨keyless, single⟩ := plain container.map.kind kind
  have fits : ([] : Bytes).length = container.map.callKeySize := by
    simp [Descriptor.callKeySize, keyless]
  have room : container.map.bufferSize = Element.size α := by
    rw [Descriptor.bufferSize_of_single single, values]
  refine ⟨?_, ?_, ?_⟩
  · intro value flags
    refine (container.map.oneCall.update [] (Element.encode value) flags).congr ?_
    simp [← fits, Element.encode_length, room]
  · exact .of_cases (fun never => (never trivial).elim) fun _ => pop_single keyless room
  · have single := (Descriptor.lookup_single fits).bind trivial fun found =>
      Attempt.quiet_liftM (present (α := α) found)
    exact .of_cases (fun never => (never trivial).elim) fun _ => ⟨_, id, single⟩

end SequenceMap

theorem storedFrames_atomic {α : Type} [Element α] (empty : α) (map : Descriptor) (stack : StackId) :
    Atomic (storedFrames α empty map stack)
      (stack.key?.isSome = true ∧ Element.size UInt32 = map.callKeySize) := by
  rw [storedFrames]
  cases stack.key? with
  | none => exact .of_refused (Attempt.quiet_pure none) (by simp)
  | some key =>
      rw [← Element.encode_length key]
      refine .of_cases ?_ ?_
      · intro refused
        refine (Descriptor.lookup_quiet fun fits => refused ⟨rfl, fits⟩).bind ?_
        exact fun found => Attempt.quiet_pure _
      · rintro ⟨_, fits⟩
        have single := (Descriptor.lookup_single fits).bind trivial fun found =>
          Attempt.quiet_pure (found.map (framesOf α empty))
        exact ⟨_, id, single⟩

/-- Every operation on one element makes one call at most, makes none if its arguments are refused,
and leaves the map as it was if it fails, unless it has taken out a value of another size than the
map exchanges. -/
theorem element_operations_call_once :
    (∀ map : Descriptor, map.OneCall) ∧
    (∀ table : Table, table.OneCall) ∧
    (∀ (κ ν : Type) [Element κ] (view : TypedMap κ ν), view.OneCall) ∧
    (∀ (κ α : Type) [Element κ] [Element α] (family : Family) (summary : Descriptor → String)
      (map : Descriptor) (view : TypedMap κ (List α)),
      TypedMap.perCpu κ α family summary map = .ok view →
        ∀ key values flags, values.length ≠ map.cpus →
          (view.updateWith key values flags).run =
            .done (.error (.badValueSize map.cpus values.length))) ∧
    (∀ (α : Type) [Element α] (map : Descriptor) (container : SequenceMap α),
      SequenceMap.ofMap α map = .ok container → container.OneCall) ∧
    (∀ (σ χ : Type) (table : StackTable σ χ) (id : StackId), Atomic (table.raw id)
      (id.key?.isSome = true ∧ 4 = table.map.callKeySize)) ∧
    ∀ (table : BuildIdTable) (id : StackId), Atomic (table.raw id)
      (id.key?.isSome = true ∧ 4 = table.map.callKeySize) := by
  refine ⟨Descriptor.oneCall, Table.oneCall, ?_, ?_, ?_, ?_, ?_⟩
  · intro κ ν _ view
    exact view.oneCall
  · intro κ α _ _ family summary map view made key values flags differs
    exact TypedMap.updateWith_perCpu_refused made key differs flags
  · intro α _ map container made
    exact SequenceMap.oneCall made
  · intro σ χ table
    exact storedFrames_atomic 0 table.map
  · intro table
    exact storedFrames_atomic BuildIdFrame.empty table.map

def cpuCounters : Descriptor where
  name := "counters"
  kind := .percpuHash
  keySize := 4
  valueSize := 8
  capacity := 4
  fd := 5
  ownsFd := true
  cpuCount := 2
  keyCodec := .hex
  valueCodec := .hex

def oddReturns : Simulation :=
  .ofStore (.sequence true 2 [[1, 0], [2, 0, 0]])

theorem odd_return_popped_once :
    (∃ container : SequenceMap UInt16, SequenceMap.ofMap UInt16 returnStack = .ok container ∧
      Taking container.pop True none 2 ∧
      ∃ error after, oddReturns.run container.pop = (.error error, after) ∧
        (after.store = oddReturns.store ∨
          ∃ value, oddReturns.store.taken? none = some value ∧ value.length ≠ 2)) ∧
    ∃ view : TypedMap UInt32 (List UInt64),
      TypedMap.perCpuHash UInt32 UInt64 cpuCounters = .ok view ∧ [(1 : UInt64)].length ≠ 2 ∧
        (view.updateWith 7 [1] 0).run = .done (.error (.badValueSize 2 1)) := by
  obtain ⟨_, _, _, perCpu, sequence, _⟩ := element_operations_call_once
  have stack : SequenceMap.ofMap UInt16 returnStack = .ok ⟨returnStack, _⟩ := rfl
  have counters : TypedMap.perCpuHash UInt32 UInt64 cpuCounters = .ok
      ⟨cpuCounters, Content.perCpu UInt64 2, .byFirstKey, _⟩ := rfl
  have popped := (sequence _ _ _ stack).pop
  exact ⟨⟨_, stack, popped, _, _, rfl, popped.kept oddReturns _ _ rfl⟩,
    _, counters, by decide, perCpu _ _ _ _ _ _ counters 7 [1] 0 (by decide)⟩

end KernelMaps
