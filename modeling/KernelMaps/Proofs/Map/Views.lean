import KernelMaps.Proofs.Codec.Room
import KernelMaps.Proofs.Map.OneCall
import KernelMaps.Proofs.Map.Slots

/-!
The typed view of a map and its text table. Asked for the same elements, one through values and the
other through the texts of these values, they are the same programs, so that nothing behind them can
tell which of them it answers.
-/

namespace KernelMaps

/-- Whether an attempt shows what another one comes to. Both ask the same of any map that stands
behind them and leave it alike, and a key is missing for both or for none. -/
structure Attempt.Shows {τ ν : Type} (texts : Attempt τ) (values : Attempt ν) (shown : ν → τ) :
    Prop where
  same : texts = shown <$> values
  run : ∀ {β : Type} [Backend β] (backend : β), Backend.run backend texts =
    ((Backend.run backend values).1.map shown, (Backend.run backend values).2)
  missing : ∀ {β : Type} [Backend β] (backend : β),
    (Backend.run backend texts).1 = .error .keyNotFound ↔
      (Backend.run backend values).1 = .error .keyNotFound

theorem Attempt.Shows.of_eq {τ ν : Type} {texts : Attempt τ} {values : Attempt ν} {shown : ν → τ}
    (same : texts = shown <$> values) : Shows texts values shown := by
  have run {β : Type} [Backend β] (backend : β) : Backend.run backend texts =
      ((Backend.run backend values).1.map shown, (Backend.run backend values).2) := by
    rw [same, map_eq_pure_bind, Backend.run, ExceptT.run_bind, Access.run_bind, Backend.run]
    cases (Access.run Backend.answer values.run backend).1 <;> rfl
  refine ⟨same, run, ?_⟩
  intro β _ backend
  rw [run]
  cases (Backend.run backend values).1 <;> simp [Except.map]

theorem Descriptor.lookup_bind_congr {α : Type} (map : Descriptor) (key : Bytes)
    {first second : Option Bytes → Attempt α} (missing : first none = second none)
    (found : ∀ bytes, bytes.length = map.bufferSize → first (some bytes) = second (some bytes)) :
    (map.lookup key >>= first) = (map.lookup key >>= second) := by
  have same (reply : Reply) :
      (liftM (handedOut .gettingValue map.bufferSize reply) >>= first : Attempt α) =
        liftM (handedOut .gettingValue map.bufferSize reply) >>= second := by
    cases reply with
    | ok bytes => exact found _ (fitted_length ..)
    | error errno =>
        by_cases absent : errno = .noEntry
        · simp only [handedOut, absent, if_true]
          exact missing
        · simp only [handedOut, absent, if_false]
          rfl
  simp only [lookup, bind_assoc, same]

namespace Descriptor

theorem slotSize_of_aligned {map : Descriptor} (fits : map.SlotsFit) (positive : 0 < map.valueSize)
    (aligned : map.valueSize % slotAlignment = 0) : map.slotSize = map.valueSize :=
  Nat.le_antisymm
    ((slotSize_isLeast fits.slot).2 ⟨positive, Nat.dvd_of_mod_eq_zero aligned, Nat.le_refl _⟩)
    fits.valueSize_le_slotSize

theorem slotsFit_of_values {α : Type} [Element α] {map : Descriptor}
    (values : map.valueSize = Element.size α) : map.SlotsFit :=
  slotsFit_of_le (values ▸ Element.size_le)

end Descriptor

/-- The texts of keys and values of these types, which the codecs of a map read back. -/
structure Rendered {κ α : Type} [Element κ] [Element α] (map : Descriptor) (keyText : κ → String)
    (valueText : α → String) : Prop where
  key : ∀ key, map.keyText Descriptor.textFactor (Element.encode key) = .ok (keyText key)
  value : ∀ value, map.valueText Descriptor.textFactor (Element.encode value) = .ok (valueText value)
  readKey : ∀ key, map.keyOfText (keyText key) = .ok (Element.encode key)
  readValue : ∀ value, map.valueOfText (valueText value) = .ok (Element.encode value)

theorem exists_rendered {κ α : Type} [Element κ] [Element α] {map : Descriptor}
    (keys : Codec.Faithful map.keyCodec map.keySize)
    (values : Codec.Faithful map.valueCodec map.valueSize) (keySize : map.keySize = Element.size κ)
    (valueSize : map.valueSize = Element.size α) :
    ∃ (keyText : κ → String) (valueText : α → String), Rendered map keyText valueText := by
  have keyLength (key : κ) : (Element.encode key).length = map.keySize := by
    rw [Element.encode_length, keySize]
  have valueLength (value : α) : (Element.encode value).length = map.valueSize := by
    rw [Element.encode_length, valueSize]
  choose keyText writtenKey readKey using fun key : κ => keys.restores _ (keyLength key)
  choose valueText writtenValue readValue using fun value : α => values.restores _ (valueLength value)
  refine ⟨keyText, valueText, ?_, ?_, ?_, ?_⟩
  · intro key
    have fits := Descriptor.roomFits_of_le (keySize ▸ Element.size_le)
    exact Descriptor.keyText_of_writes (Nat.le_refl _) fits keys (keyLength key) (writtenKey key)
  · intro value
    have fits := Descriptor.roomFits_of_le (valueSize ▸ Element.size_le)
    exact Descriptor.valueText_of_writes (Nat.le_refl _) fits values (valueLength value)
      (writtenValue value)
  · intro key
    exact Descriptor.keyOfText_eq_ok.2 (readKey key)
  · intro value
    exact Descriptor.valueOfText_eq_ok.2 (readValue value)

namespace Rendered

variable {κ α ν τ : Type} [Element κ] [Element α] {map : Descriptor} {keyText : κ → String}
  {valueText : α → String}

theorem lookup_eq (rendered : Rendered map keyText valueText) {view : TypedMap κ ν}
    (same : view.map = map) {shown : ν → τ} {texts : Bytes → Except MapError τ}
    (reads : ∀ bytes, bytes.length = map.bufferSize →
      texts bytes = (view.content.unpack bytes).map shown) (key : κ) :
    (Table.lookup ⟨map, Descriptor.textFactor⟩ (keyText key) >>= fun bytes => liftM (texts bytes)) =
      shown <$> view.get key := by
  have asked : Table.lookup ⟨map, Descriptor.textFactor⟩ (keyText key) =
      (map.lookup (Element.encode key) >>= fun found => found.elim (throw .keyNotFound) pure) := by
    rw [Table.lookup, rendered.readKey key]
    refine bind_congr (x := map.lookup (Element.encode key)) ?_
    intro found
    cases found <;> rfl
  rw [asked, TypedMap.get, same, map_eq_pure_bind, bind_assoc, bind_assoc]
  refine map.lookup_bind_congr _ rfl ?_
  intro bytes fills
  have shows : (liftM (texts bytes) : Attempt τ) =
      (liftM (view.content.unpack bytes) >>= fun value => pure (shown value)) := by
    rw [reads bytes fills]
    cases view.content.unpack bytes <;> rfl
  exact shows

theorem readValues (rendered : Rendered map keyText valueText) (values : List α) :
    (values.map valueText).mapM map.valueOfText = .ok (values.map Element.encode) := by
  have read : ∀ value ∈ values, (map.valueOfText ∘ valueText) value = .ok (Element.encode value) :=
    fun value _ => rendered.readValue value
  rw [← mapM_eq_ok_map read, List.mapM_map]

theorem shareTexts_eq (rendered : Rendered map keyText valueText) {bytes : Bytes}
    (slot : map.slotSize = Element.size α) (valueSize : map.valueSize = Element.size α)
    (positive : 0 < Element.size α) (fills : bytes.length = map.cpus * Element.size α) :
    Table.shareTexts ⟨map, Descriptor.textFactor⟩ bytes =
      (readSlots α map.cpus (Element.size α) bytes).map (List.map valueText) := by
  have count : bytes.length / Element.size α = map.cpus := by
    rw [fills, Nat.mul_div_cancel _ positive]
  have word : map.cpus * Element.size α < bitRange 64 :=
    slot ▸ (Descriptor.slotsFit_of_values valueSize).buffer
  have shown : ∀ share ∈ slots map.cpus (Element.size α) bytes,
      Table.shareText ⟨map, Descriptor.textFactor⟩ (share.take (Element.size α)) =
        .ok (valueText (Element.decode (share.take (Element.size α)))) := by
    intro share member
    have whole := length_of_mem_slots fills member
    have full : ¬share.length < map.valueSize := by omega
    rw [List.take_of_length_le (Nat.le_of_eq whole), Table.shareText, if_neg full,
      ← rendered.value, Element.encode_decode _ whole]
  rw [Table.shareTexts, Table.shares, List.mapM_map,
    readSlots_of_fits positive (Nat.le_refl _) word fills]
  simp only [slot, valueSize, count]
  refine (mapM_eq_ok_map shown).trans ?_
  simp [Except.map, Function.comp_def]

end Rendered

structure SingleAgrees {κ α : Type} [Element κ] [Element α] (map : Descriptor) (view : TypedMap κ α)
    (keyText : κ → String) (valueText : α → String) : Prop where
  rendered : Rendered map keyText valueText
  update : ∀ key value, Table.update ⟨map, Descriptor.textFactor⟩ (keyText key) (valueText value) =
    view.update key value
  call : ∀ key value, (view.update key value).Single
    (.update (some (Element.encode key)) (Element.encode value) 0)
  get : ∀ key, Attempt.Shows (Table.get ⟨map, Descriptor.textFactor⟩ (keyText key)) (view.get key)
    valueText

/-- A value for each CPU: both views store and read the same, and refuse rows of another length. -/
structure PerCpuAgrees {κ α : Type} [Element κ] [Element α] (map : Descriptor)
    (view : TypedMap κ (List α)) (keyText : κ → String) (valueText : α → String) : Prop where
  rendered : Rendered map keyText valueText
  update : ∀ key values, Table.updatePerCpu ⟨map, Descriptor.textFactor⟩ (keyText key)
    (values.map valueText) = view.update key values
  call : ∀ key values, values.length = map.cpus → (view.update key values).Single
    (.update (some (Element.encode key)) (writeSlots (Element.size α) values) 0)
  get : ∀ key, Attempt.Shows (Table.getPerCpu ⟨map, Descriptor.textFactor⟩ (keyText key))
    (view.get key) (List.map valueText)

section

variable {κ α : Type} [Element κ] [Element α] {map : Descriptor}

theorem updates_once (keyed : map.kind.isKeyless = false) (keySize : map.keySize = Element.size κ)
    {value : Bytes} (fills : value.length = map.bufferSize) (key : κ) :
    (map.update (Element.encode key) value 0).Single
      (.update (some (Element.encode key)) value 0) := by
  have fits : (Element.encode key).length = map.callKeySize := by
    rw [Descriptor.callKeySize_of_keyed keyed, keySize, Element.encode_length]
  have sent : map.sentKey (Element.encode key) = some (Element.encode key) := by
    simp [Descriptor.sentKey, keyed]
  have called := Descriptor.update_single fits fills 0
  rwa [sent] at called

theorem singleAgrees {family : Family} {clearing : Clearing} {summary : Descriptor → String}
    {view : TypedMap κ α} (keyed : map.kind.isKeyless = false) (single : map.kind.isPerCpu = false)
    (keys : Codec.Faithful map.keyCodec map.keySize)
    (values : Codec.Faithful map.valueCodec map.valueSize)
    (made : TypedMap.single κ α family clearing summary map = .ok view) :
    ∃ keyText valueText, SingleAgrees map view keyText valueText := by
  obtain ⟨⟨-, keySize, valueSize⟩, rfl⟩ := TypedMap.single_eq_ok.1 made
  obtain ⟨keyText, valueText, rendered⟩ := exists_rendered keys values keySize valueSize
  have buffer : map.bufferSize = Element.size α := by
    rw [Descriptor.bufferSize_of_single single, valueSize]
  refine ⟨keyText, valueText, rendered, ?_, ?_, ?_⟩
  · intro key value
    rw [Table.update, single, rendered.readKey, rendered.readValue]
    rfl
  · intro key value
    refine updates_once keyed keySize ?_ key
    rw [Element.encode_length, buffer]
  · intro key
    refine .of_eq ?_
    rw [Table.get, single]
    refine rendered.lookup_eq rfl ?_ key
    intro bytes fills
    rw [buffer] at fills
    simp only [Content.single, readElement_of_length fills, Except.map]
    rw [← rendered.value, Element.encode_decode _ fills]

theorem perCpuAgrees {family : Family} {summary : Descriptor → String}
    {view : TypedMap κ (List α)} (keyed : map.kind.isKeyless = false)
    (perCpu : map.kind.isPerCpu = true) (positive : 0 < Element.size α)
    (keys : Codec.Faithful map.keyCodec map.keySize)
    (values : Codec.Faithful map.valueCodec map.valueSize)
    (made : TypedMap.perCpu κ α family summary map = .ok view) :
    ∃ keyText valueText, PerCpuAgrees map view keyText valueText := by
  obtain ⟨⟨-, keySize, aligned, valueSize⟩, rfl⟩ := TypedMap.perCpu_eq_ok.1 made
  obtain ⟨keyText, valueText, rendered⟩ := exists_rendered keys values keySize valueSize
  have fits := Descriptor.slotsFit_of_values valueSize
  have slot : map.slotSize = Element.size α := by
    rw [Descriptor.slotSize_of_aligned fits (by omega) (by rwa [valueSize]), valueSize]
  have buffer : map.bufferSize = map.cpus * Element.size α := by
    rw [fits.bufferSize_eq perCpu, slot]
  have packed {row : List α} (count : row.length = map.cpus) :
      ((row.map Element.encode).flatMap fun share => fitted map.slotSize share) =
        writeSlots (Element.size α) row := by
    have width : max (Element.size α) (Element.size α) = Element.size α := Nat.max_self _
    have word : row.length * max (Element.size α) (Element.size α) < bitRange 64 := by
      rw [width, count, ← slot]
      exact fits.buffer
    rw [writeSlots_of_fits (width.symm ▸ positive) word, List.flatMap_map, slot, width]
  refine ⟨keyText, valueText, rendered, ?_, ?_, ?_⟩
  · intro key row
    by_cases count : row.length = map.cpus
    · have texts : (row.map valueText).length = map.cpus := by rw [List.length_map, count]
      rw [Table.updatePerCpu_of_fits fits perCpu (rendered.readKey key) texts
        (rendered.readValues row), packed count]
      simp only [count, ne_eq, not_true_eq_false, if_false, TypedMap.update, TypedMap.updateWith,
        Content.perCpu]
      rfl
    · rw [Table.updatePerCpu, perCpu, List.length_map]
      simp only [count, ne_eq, not_false_eq_true, if_true, TypedMap.update, TypedMap.updateWith,
        Content.perCpu]
      rfl
  · intro key row count
    have fills : (writeSlots (Element.size α) row).length = map.bufferSize := by
      rw [← packed count, flatMap_fitted_length, List.length_map, count, slot, buffer]
    have called := updates_once keyed keySize fills key
    simp only [TypedMap.update, TypedMap.updateWith, Content.perCpu, count, ne_eq,
      not_true_eq_false, if_false]
    exact called
  · intro key
    refine .of_eq ?_
    rw [Table.getPerCpu, perCpu]
    refine rendered.lookup_eq rfl ?_ key
    intro bytes fills
    rw [buffer] at fills
    exact rendered.shareTexts_eq slot valueSize positive fills

end

/-- Storing an element through a typed view and storing its texts are one and the same call, and
reading one shows the other. -/
theorem typed_and_text_views_agree {map : Descriptor}
    (keys : Codec.Faithful map.keyCodec map.keySize)
    (values : Codec.Faithful map.valueCodec map.valueSize) :
    (map.kind.isPerCpu = false →
      (∀ (κ α : Type) [Element κ] [Element α] (view : TypedMap κ α),
        TypedMap.hash κ α map = .ok view →
          ∃ keyText valueText, SingleAgrees map view keyText valueText) ∧
      ∀ (α : Type) [Element α] (view : TypedMap UInt32 α), TypedMap.array α map = .ok view →
        ∃ keyText valueText, SingleAgrees map view keyText valueText) ∧
    (∀ (κ α : Type) [Element κ] [Element α] (view : TypedMap κ (List α)), 0 < Element.size α →
      TypedMap.perCpuHash κ α map = .ok view →
        ∃ keyText valueText, PerCpuAgrees map view keyText valueText) ∧
    ∀ (α : Type) [Element α] (view : TypedMap UInt32 (List α)), 0 < Element.size α →
      TypedMap.perCpuArray α map = .ok view →
        ∃ keyText valueText, PerCpuAgrees map view keyText valueText := by
  have keyed : ∀ family ∈ [Family.hash, .array, .perCpuHash, .perCpuArray],
      ∀ kind ∈ family.kinds, kind.isKeyless = false := by decide
  have shared : ∀ family ∈ [Family.perCpuHash, .perCpuArray],
      ∀ kind ∈ family.kinds, kind.isPerCpu = true := by decide
  refine ⟨?_, ?_, ?_⟩
  · intro single
    constructor
    · intro κ α _ _ view made
      have listed := (TypedMap.single_eq_ok.1 made).1.1
      exact singleAgrees (keyed .hash (by decide) _ listed) single keys values made
    · intro α _ view made
      have listed := (TypedMap.single_eq_ok.1 made).1.1
      exact singleAgrees (keyed .array (by decide) _ listed) single keys values made
  · intro κ α _ _ view positive made
    have listed := (TypedMap.perCpu_eq_ok.1 made).1.1
    exact perCpuAgrees (keyed .perCpuHash (by decide) _ listed)
      (shared .perCpuHash (by decide) _ listed) positive keys values made
  · intro α _ view positive made
    have listed := (TypedMap.perCpu_eq_ok.1 made).1.1
    exact perCpuAgrees (keyed .perCpuArray (by decide) _ listed)
      (shared .perCpuArray (by decide) _ listed) positive keys values made

instance : Element (UInt32 × Int32) :=
  Element.pair inferInstance inferInstance (by decide)

def flowMap : Descriptor where
  name := "flows"
  kind := .array
  keySize := 4
  valueSize := 8
  capacity := 16
  fd := 7
  ownsFd := true
  cpuCount := 2
  keyCodec := .integer false
  valueCodec := .fields Codec.wordPair

theorem flows_and_counters_agree :
    (Codec.Faithful flowMap.keyCodec flowMap.keySize ∧
      Codec.Faithful flowMap.valueCodec flowMap.valueSize ∧ flowMap.kind.isPerCpu = false ∧
      ∃ view : TypedMap UInt32 (UInt32 × Int32), TypedMap.array (UInt32 × Int32) flowMap = .ok view ∧
        ∃ keyText valueText, SingleAgrees flowMap view keyText valueText) ∧
    Codec.Faithful cpuCounters.keyCodec cpuCounters.keySize ∧
      Codec.Faithful cpuCounters.valueCodec cpuCounters.valueSize ∧ 0 < Element.size UInt64 ∧
      ∃ view : TypedMap UInt32 (List UInt64),
        TypedMap.perCpuHash UInt32 UInt64 cpuCounters = .ok view ∧
        ∃ keyText valueText, PerCpuAgrees cpuCounters view keyText valueText := by
  have words : ∀ field ∈ Codec.wordPair, Codec.isWordWidth field.width = true := by decide
  have keys : Codec.Faithful flowMap.keyCodec flowMap.keySize := .integer false rfl
  have values : Codec.Faithful flowMap.valueCodec flowMap.valueSize := .fields words
  have flows : TypedMap.array (UInt32 × Int32) flowMap = .ok
      ⟨flowMap, Content.single (UInt32 × Int32), .byFirstKey, _⟩ := rfl
  have counters : TypedMap.perCpuHash UInt32 UInt64 cpuCounters = .ok
      ⟨cpuCounters, Content.perCpu UInt64 2, .byFirstKey, _⟩ := rfl
  have filled : 0 < Element.size UInt64 := by decide
  have counterKeys : Codec.Faithful cpuCounters.keyCodec cpuCounters.keySize := .hex _
  have counterValues : Codec.Faithful cpuCounters.valueCodec cpuCounters.valueSize := .hex _
  obtain ⟨single, -, -⟩ := typed_and_text_views_agree keys values
  obtain ⟨-, perCpu, -⟩ := typed_and_text_views_agree counterKeys counterValues
  exact ⟨⟨keys, values, rfl, _, flows, (single rfl).2 _ _ flows⟩, counterKeys, counterValues, filled,
    _, counters, perCpu _ _ _ filled counters⟩

end KernelMaps
