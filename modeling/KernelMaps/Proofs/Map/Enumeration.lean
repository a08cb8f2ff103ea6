import KernelMaps.Proofs.Map.Gaps
import KernelMaps.Proofs.Map.Hash
import KernelMaps.Proofs.Map.Views

/-!
Enumerations of hashes and of plain arrays that nobody else writes. A hash gives one pair for each
of its entries and an array one for each of its slots, with the values that single reads give.
-/

namespace KernelMaps

variable {κ ν α : Type} [Element κ] [Element α]

/-! What fills the buffer of a map can be read. -/

def readRow (α : Type) [Element α] (count : Nat) (bytes : Bytes) : List α :=
  (slots count (Element.size α) bytes).map fun slot =>
    Element.decode (slot.take (Element.size α))

theorem readRow_zeroed (count : Nat) :
    readRow α count (zeroed (count * Element.size α)) =
      List.replicate count (Element.decode (zeroed (Element.size α))) := by
  rw [readRow, slots_zeroed, List.map_replicate, List.take_of_length_le (by rw [zeroed_length])]

/-- Whether a view has the sizes of its map, so that it reads every key and every value. -/
structure TypedMap.Fits (view : TypedMap κ ν) (read : Bytes → ν) : Prop where
  keys : view.map.keySize = Element.size κ
  values : ∀ bytes, bytes.length = view.map.bufferSize → view.content.unpack bytes = .ok (read bytes)

theorem TypedMap.fits_of_single {family : Family} {clearing : Clearing}
    {summary : Descriptor → String} {map : Descriptor} {view : TypedMap κ α}
    (whole : map.bufferSize = map.valueSize)
    (made : single κ α family clearing summary map = .ok view) :
    view.map = map ∧ view.Fits Element.decode := by
  obtain ⟨⟨-, keys, values⟩, rfl⟩ := single_eq_ok.1 made
  refine ⟨rfl, keys, ?_⟩
  intro bytes fills
  exact readElement_of_length (fills.trans (whole.trans values))

theorem Descriptor.bufferSize_of_aligned {map : Descriptor} (perCpu : map.kind.isPerCpu = true)
    (values : map.valueSize = Element.size α) (positive : 0 < Element.size α)
    (aligned : Element.size α % slotAlignment = 0) :
    map.bufferSize = map.cpus * Element.size α ∧ map.cpus * Element.size α < bitRange 64 := by
  have fits := slotsFit_of_values values
  have slot : map.slotSize = Element.size α := by
    rw [slotSize_of_aligned fits (by omega) (by rwa [values]), values]
  rw [← slot]
  exact ⟨fits.bufferSize_eq perCpu, fits.buffer⟩

theorem TypedMap.fits_of_perCpu {family : Family} {summary : Descriptor → String}
    {map : Descriptor} {view : TypedMap κ (List α)} (perCpu : map.kind.isPerCpu = true)
    (positive : 0 < Element.size α)
    (made : TypedMap.perCpu κ α family summary map = .ok view) :
    view.map = map ∧ view.Fits (readRow α map.cpus) := by
  obtain ⟨⟨-, keys, aligned, values⟩, rfl⟩ := perCpu_eq_ok.1 made
  refine ⟨rfl, keys, ?_⟩
  intro bytes fills
  obtain ⟨buffer, word⟩ := Descriptor.bufferSize_of_aligned perCpu values positive aligned
  exact readSlots_of_fits positive (Nat.le_refl _) word (fills.trans buffer)

/-! Walks that are given what stands in a map. -/

/-- What stands in a map as walks come upon it: they are given the keys in turn, and each lookup finds
what is stored under its key. None of it changes the store. -/
structure Listed (map : Descriptor) (stored : List (Bytes × Bytes)) (store : Store)
    (kept : Simulation → Prop) : Prop where
  sized : ∀ entry ∈ stored, entry.1.length = map.keySize ∧ entry.2.length = map.bufferSize
  next : ∀ simulation count, kept simulation → count ≤ stored.length → ∃ after, kept after ∧
    ((KeyWalk.place stored count).next map).run Simulation.answer simulation =
      ((KeyWalk.place stored count).given (stored[count]?.map Prod.fst), after)
  lookup : ∀ simulation, kept simulation → ∀ entry ∈ stored, ∃ after, kept after ∧
    simulation.run (map.lookup entry.1) = (.ok (some entry.2), after)
  store : ∀ simulation, kept simulation → simulation.store = store

/-- Whether an enumeration gives these pairs. It ends behind the last of them, each value is the one
that a single read of its key gives, and the store stays as it was. -/
structure TypedMap.Enumerates (view : TypedMap κ ν) (simulation : Simulation)
    (pairs : List (κ × ν)) : Prop where
  walk : ∀ budget, pairs.length < budget → ∃ after,
    simulation.run (view.enumerate budget) = (.ok (some pairs), after) ∧
      after.store = simulation.store
  get : ∀ pair ∈ pairs, ∃ after, simulation.run (view.get pair.1) = (.ok pair.2, after) ∧
    after.store = simulation.store

namespace Listed

variable {view : TypedMap κ ν} {stored : List (Bytes × Bytes)} {store : Store}
  {kept : Simulation → Prop} (listed : Listed view.map stored store kept) {read : Bytes → ν}
  (fits : view.Fits read)
include listed fits

theorem run_get {simulation : Simulation} (holds : kept simulation) {entry : Bytes × Bytes}
    (member : entry ∈ stored) :
    ∃ after, kept after ∧
      simulation.run (view.get (Element.decode entry.1)) = (.ok (read entry.2), after) := by
  obtain ⟨keyExact, valueExact⟩ := listed.sized entry member
  obtain ⟨after, holds, found⟩ := listed.lookup simulation holds entry member
  refine ⟨after, holds, ?_⟩
  rw [TypedMap.get, Element.encode_decode _ (keyExact.trans fits.keys), Simulation.run_bind, found]
  simp only [Simulation.run_liftM, fits.values _ valueExact]

theorem enumerates {simulation : Simulation} (holds : kept simulation) :
    view.Enumerates simulation
      (stored.map fun entry => (Element.decode entry.1, read entry.2)) := by
  have unchanged (after : Simulation) (last : kept after) : after.store = simulation.store :=
    (listed.store after last).trans (listed.store simulation holds).symm
  constructor
  · intro budget enough
    rw [List.length_map] at enough
    have visit : ∀ simulation, kept simulation → ∀ entry ∈ stored, ∃ after, kept after ∧
        simulation.run (view.visit entry.1) =
          (.ok (some (Element.decode entry.1, read entry.2)), after) := by
      intro simulation holds entry member
      obtain ⟨after, holds, got⟩ := listed.run_get fits holds member
      exact ⟨after, holds,
        TypedMap.run_visit ((listed.sized entry member).1.trans fits.keys) got⟩
    obtain ⟨after, last, collected⟩ :=
      Simulation.run_collectKeys listed.next visit holds enough
    exact ⟨after, collected, unchanged after last⟩
  · intro pair member
    obtain ⟨entry, inside, rfl⟩ := List.mem_map.1 member
    obtain ⟨after, last, got⟩ := listed.run_get fits holds inside
    exact ⟨after, got, unchanged after last⟩

end Listed

/-! Hashes. -/

structure ListsEntries (view : TypedMap κ ν) (entries : OrderedMap) (simulation : Simulation)
    (pairs : List (κ × ν)) : Prop extends view.Enumerates simulation pairs where
  entries : List.Forall₂ (fun entry pair => Element.encode pair.1 = entry.1 ∧
    view.content.unpack entry.2 = .ok pair.2) entries.entries pairs
  ascending : pairs.Pairwise fun first second =>
    precedes (Element.encode first.1) (Element.encode second.1) = true

namespace ServesEntries

variable {map : Descriptor} {room : Nat} {entries : OrderedMap} {simulation : Simulation}

theorem listed (served : ServesEntries map room entries simulation) :
    Listed map entries.entries (.hash room entries) (ServesEntries map room entries) where
  sized := served.sized
  next _ _ served inside := served.next inside
  lookup _ served entry member := by
    obtain ⟨after, kept, found⟩ := served.lookup (served.sized entry member).1
    rw [OrderedMap.get?_eq_some_iff.2 member] at found
    exact ⟨after, kept, found⟩
  store _ served := served.serves.store

theorem listsEntries {view : TypedMap κ ν} {read : Bytes → ν}
    (served : ServesEntries view.map room entries simulation) (fits : view.Fits read) :
    ∃ pairs, ListsEntries view entries simulation pairs := by
  have keyExact (entry : Bytes × Bytes) (member : entry ∈ entries.entries) :
      Element.encode (Element.decode entry.1 : κ) = entry.1 :=
    Element.encode_decode _ ((served.sized entry member).1.trans fits.keys)
  refine ⟨_, served.listed.enumerates fits served, ?_, ?_⟩
  · rw [List.forall₂_map_right_iff, List.forall₂_same]
    intro entry member
    exact ⟨keyExact entry member, fits.values _ (served.sized entry member).2⟩
  · rw [List.pairwise_map]
    refine entries.ascending.imp_of_mem ?_
    intro first second firstMember secondMember before
    rwa [keyExact first firstMember, keyExact second secondMember]

end ServesEntries

/-! Arrays, of which every index can be read and an unset one holds zeros. -/

def Store.rows (slots : Array (Option Bytes)) (room : Nat) : List (Bytes × Bytes) :=
  slots.toList.mapIdx fun index slot => (wordBytes 4 index, slot.getD (zeroed room))

structure ListsSlots (view : TypedMap UInt32 ν) (slots : Array (Option Bytes)) (zero : ν)
    (simulation : Simulation) (pairs : List (UInt32 × ν)) : Prop extends
    view.Enumerates simulation pairs where
  keys : pairs.map Prod.fst = (List.range view.capacity).map UInt32.ofNat
  values : pairs.map (fun pair => Except.ok pair.2) =
    slots.toList.map fun slot => slot.elim (.ok zero) view.content.unpack

structure ServesRows (map : Descriptor) (slots : Array (Option Bytes)) (simulation : Simulation) :
    Prop where
  keySize : map.keySize = 4
  keyed : map.kind.isKeyless = false
  filled : slots.size = map.capacity.toNat
  sized : ∀ value, some value ∈ slots → value.length = map.bufferSize
  serves : simulation.Serves (.array slots)

namespace ServesRows

variable {map : Descriptor} {slots : Array (Option Bytes)} {simulation : Simulation}

theorem bounded (served : ServesRows map slots simulation) : slots.size < wordRange 4 :=
  served.filled ▸ map.capacity.toNat_lt

theorem row_length (served : ServesRows map slots simulation) {slot : Option Bytes}
    (member : slot ∈ slots) : (slot.getD (zeroed map.bufferSize)).length = map.bufferSize := by
  cases slot with
  | none => exact zeroed_length _
  | some value => exact served.sized value member

theorem lookup (served : ServesRows map slots simulation) {index : Nat} {slot : Option Bytes}
    (here : slots[index]? = some slot) :
    ∃ after, ServesRows map slots after ∧
      simulation.run (map.lookup (wordBytes 4 index)) =
        (.ok (some (slot.getD (zeroed map.bufferSize))), after) := by
  obtain ⟨inside, _⟩ := Array.getElem?_eq_some_iff.1 here
  have found := Store.indexOf_wordBytes (Nat.lt_trans inside served.bounded)
  have argument : map.keyArgument (wordBytes 4 index) = .ok (some (wordBytes 4 index)) :=
    Descriptor.keyArgument_of_keyed served.keyed
      ((wordBytes_length 4 index).trans served.keySize.symm)
  obtain ⟨after, answered, kept⟩ :=
    served.serves.answer (.lookup (some (wordBytes 4 index)) map.bufferSize)
  refine ⟨after, { served with serves := kept }, ?_⟩
  rw [Simulation.run_lookup, argument]
  simp only [answered, Store.answer, Store.lookup, found, bind, Except.bind, here]
  have exact := served.row_length (Array.mem_of_getElem? here)
  cases slot with
  | none => exact congrArg (fun bytes => (Except.ok (some bytes), after)) (fitted_of_length _ _ exact)
  | some value =>
      simp only [Option.getD_some] at exact
      simp only [Store.copyTo, exact, if_true, Descriptor.handedOut, Option.getD_some,
        fitted_of_length _ _ exact]

theorem decode_index {index : Nat} (below : index < wordRange 4) :
    (Element.decode (wordBytes 4 index) : UInt32) = UInt32.ofNat index :=
  congrArg UInt32.ofNat ((wordValue_wordBytes ..).trans (Nat.mod_eq_of_lt below))

theorem place_rows {room count : Nat} (below : count ≤ slots.size) :
    KeyWalk.place (Store.rows slots room) count = KeyWalk.before count := by
  cases count with
  | zero => rfl
  | succ count =>
      simp only [KeyWalk.place, KeyWalk.before, Store.rows, List.getElem?_mapIdx,
        Array.getElem?_toList, Array.getElem?_eq_getElem below, Option.map_some]

theorem listed (served : ServesRows map slots simulation) :
    Listed map (Store.rows slots map.bufferSize) (.array slots) (ServesRows map slots) where
  sized entry member := by
    obtain ⟨index, inside, rfl⟩ := List.mem_mapIdx.1 member
    refine ⟨(wordBytes_length ..).trans served.keySize.symm, served.row_length ?_⟩
    exact Array.mem_toList_iff.1 (List.getElem_mem inside)
  next simulation count served inside := by
    have below : count ≤ slots.size := by simpa [Store.rows] using inside
    have key : (Store.rows slots map.bufferSize)[count]?.map Prod.fst =
        if count < slots.size then some (wordBytes 4 count) else none := by
      simp only [Store.rows, List.getElem?_mapIdx, Array.getElem?_toList, Option.map_map]
      split
      · next present => rw [Array.getElem?_eq_getElem present]; rfl
      · next behind => rw [Array.getElem?_eq_none (Nat.le_of_not_lt behind)]; rfl
    obtain ⟨after, kept, walked⟩ := served.serves.nextIndex (fun _ _ => rfl) served.keySize
      (Nat.le_of_lt served.bounded) below
    refine ⟨after, { served with serves := kept }, ?_⟩
    rw [place_rows below, key, walked]
  lookup simulation served entry member := by
    obtain ⟨index, here⟩ := List.mem_iff_getElem?.1 member
    simp only [Store.rows, List.getElem?_mapIdx, Array.getElem?_toList, Option.map_eq_some_iff]
      at here
    obtain ⟨slot, here, rfl⟩ := here
    exact served.lookup here
  store _ served := served.serves.store

theorem listsSlots {view : TypedMap UInt32 ν} {read : Bytes → ν}
    (served : ServesRows view.map slots simulation) (fits : view.Fits read) :
    ∃ pairs, ListsSlots view slots (read (zeroed view.map.bufferSize)) simulation pairs := by
  refine ⟨_, served.listed.enumerates fits served, ?_, ?_⟩
  · rw [TypedMap.capacity, ← served.filled, List.map_map]
    refine List.ext_getElem (by simp [Store.rows]) ?_
    intro index inside _
    have below : index < slots.size := by simpa [Store.rows] using inside
    simp only [Store.rows, List.getElem_map, List.getElem_mapIdx, List.getElem_range,
      Function.comp_apply]
    exact decode_index (Nat.lt_trans below served.bounded)
  · rw [List.map_map]
    refine List.ext_getElem (by simp [Store.rows]) ?_
    intro index inside _
    have below : index < slots.size := by simpa [Store.rows] using inside
    have exact := served.row_length (Array.getElem_mem below)
    simp only [Store.rows, List.getElem_map, List.getElem_mapIdx, Function.comp_apply,
      Array.getElem_toList]
    generalize slots[index] = slot at exact ⊢
    cases slot with
    | none => rfl
    | some value => exact (fits.values value exact).symm

end ServesRows

structure HashesListed (map : Descriptor) (entries : OrderedMap) (simulation : Simulation) :
    Prop where
  hash : ∀ (κ α : Type) [Element κ] [Element α] (view : TypedMap κ α),
    TypedMap.hash κ α map = .ok view → map.kind.isPerCpu = false →
      ∃ pairs, ListsEntries view entries simulation pairs
  perCpuHash : ∀ (κ α : Type) [Element κ] [Element α] (view : TypedMap κ (List α)),
    0 < Element.size α → TypedMap.perCpuHash κ α map = .ok view →
      ∃ pairs, ListsEntries view entries simulation pairs
  sockhash : ∀ (κ : Type) [Element κ] (view : TypedMap κ Int32),
    TypedMap.sockhash κ map = .ok view → ∃ pairs, ListsEntries view entries simulation pairs
  mapInMap : ∀ (κ : Type) [Element κ] (view : TypedMap κ Int32),
    TypedMap.mapInMap κ map = .ok view → ∃ pairs, ListsEntries view entries simulation pairs
  localStorage : ∀ (α : Type) [Element α] (family : Family) (view : TypedMap Int32 α),
    family ∈ [Family.skStorage, .inodeStorage, .taskStorage] →
      TypedMap.localStorage α family map = .ok view →
        ∃ pairs, ListsEntries view entries simulation pairs
  cgroupStorage : ∀ (α : Type) [Element α] (view : TypedMap CgroupKey α),
    TypedMap.cgroupStorage α map = .ok view → ∃ pairs, ListsEntries view entries simulation pairs
  perCpuCgroupStorage : ∀ (α : Type) [Element α] (view : TypedMap CgroupKey (List α)),
    0 < Element.size α → TypedMap.perCpuCgroupStorage α map = .ok view →
      ∃ pairs, ListsEntries view entries simulation pairs

structure ArraysListed (map : Descriptor) (slots : Array (Option Bytes))
    (simulation : Simulation) : Prop where
  array : ∀ (α : Type) [Element α] (view : TypedMap UInt32 α), TypedMap.array α map = .ok view →
    map.kind = .array →
      ∃ pairs, ListsSlots view slots (Element.decode (zeroed (Element.size α))) simulation pairs
  perCpuArray : ∀ (α : Type) [Element α] (view : TypedMap UInt32 (List α)), 0 < Element.size α →
    TypedMap.perCpuArray α map = .ok view →
      ∃ pairs, ListsSlots view slots
        (List.replicate map.cpus (Element.decode (zeroed (Element.size α)))) simulation pairs

section

variable {map : Descriptor} {family : Family} {summary : Descriptor → String}
  {simulation : Simulation} (keyed : ∀ kind ∈ family.kinds, kind.isKeyless = false)
include keyed

section

variable {room : Nat} {entries : OrderedMap}
  (sized : ∀ entry ∈ entries.entries,
    entry.1.length = map.keySize ∧ entry.2.length = map.bufferSize)
  (serves : simulation.Serves (.hash room entries))
include sized serves

theorem listsEntries_of_single {clearing : Clearing} {view : TypedMap κ α}
    (plain : map.kind.isPerCpu = false)
    (made : TypedMap.single κ α family clearing summary map = .ok view) :
    ∃ pairs, ListsEntries view entries simulation pairs := by
  have listed := (TypedMap.single_eq_ok.1 made).1.1
  obtain ⟨rfl, fits⟩ := TypedMap.fits_of_single (Descriptor.bufferSize_of_single plain) made
  exact ServesEntries.listsEntries ⟨keyed _ listed, sized, serves⟩ fits

theorem listsEntries_of_perCpu {view : TypedMap κ (List α)}
    (shared : ∀ kind ∈ family.kinds, kind.isPerCpu = true) (positive : 0 < Element.size α)
    (made : TypedMap.perCpu κ α family summary map = .ok view) :
    ∃ pairs, ListsEntries view entries simulation pairs := by
  have listed := (TypedMap.perCpu_eq_ok.1 made).1.1
  obtain ⟨rfl, fits⟩ := TypedMap.fits_of_perCpu (shared _ listed) positive made
  exact ServesEntries.listsEntries ⟨keyed _ listed, sized, serves⟩ fits

end

variable {slots : Array (Option Bytes)} (filled : slots.size = map.capacity.toNat)
  (sized : ∀ value, some value ∈ slots → value.length = map.bufferSize)
  (serves : simulation.Serves (.array slots))
include filled sized serves

theorem listsSlots_of_single {clearing : Clearing} {view : TypedMap UInt32 α}
    (plain : map.kind.isPerCpu = false)
    (made : TypedMap.single UInt32 α family clearing summary map = .ok view) :
    ∃ pairs,
      ListsSlots view slots (Element.decode (zeroed (Element.size α))) simulation pairs := by
  obtain ⟨listed, keySize, values⟩ := (TypedMap.single_eq_ok.1 made).1
  obtain ⟨rfl, fits⟩ := TypedMap.fits_of_single (Descriptor.bufferSize_of_single plain) made
  rw [← values, ← Descriptor.bufferSize_of_single plain]
  exact ServesRows.listsSlots ⟨keySize, keyed _ listed, filled, sized, serves⟩ fits

theorem listsSlots_of_perCpu {view : TypedMap UInt32 (List α)}
    (shared : ∀ kind ∈ family.kinds, kind.isPerCpu = true) (positive : 0 < Element.size α)
    (made : TypedMap.perCpu UInt32 α family summary map = .ok view) :
    ∃ pairs, ListsSlots view slots
      (List.replicate map.cpus (Element.decode (zeroed (Element.size α)))) simulation pairs := by
  obtain ⟨listed, keySize, aligned, values⟩ := (TypedMap.perCpu_eq_ok.1 made).1
  have buffer := (Descriptor.bufferSize_of_aligned (shared _ listed) values positive aligned).1
  obtain ⟨rfl, fits⟩ := TypedMap.fits_of_perCpu (shared _ listed) positive made
  rw [← readRow_zeroed, ← buffer]
  exact ServesRows.listsSlots ⟨keySize, keyed _ listed, filled, sized, serves⟩ fits

end

/-- An enumeration of a hash or of a plain array that no call fails on gives what stands in it and
nothing else: the entries of the hash in the order of their keys, or the elements of the array by
their indices, with zeros for those that were never set. -/
theorem enumeration_lists_contents (map : Descriptor) (simulation : Simulation) :
    (∀ room entries, (∀ entry ∈ entries.entries,
        entry.1.length = map.keySize ∧ entry.2.length = map.bufferSize) →
      simulation.Serves (.hash room entries) → HashesListed map entries simulation) ∧
    ∀ slots : Array (Option Bytes), slots.size = map.capacity.toNat →
      (∀ value, some value ∈ slots → value.length = map.bufferSize) →
        simulation.Serves (.array slots) → ArraysListed map slots simulation := by
  have keyed : ∀ family ∈ [Family.array, .perCpuArray, .hash, .perCpuHash, .sockhash, .mapInMap,
      .skStorage, .inodeStorage, .taskStorage, .cgroupStorage, .perCpuCgroupStorage],
      ∀ kind ∈ family.kinds, kind.isKeyless = false := by decide
  have plain : ∀ family ∈ [Family.sockhash, .mapInMap, .skStorage, .inodeStorage, .taskStorage,
      .cgroupStorage], ∀ kind ∈ family.kinds, kind.isPerCpu = false := by decide
  have shared : ∀ family ∈ [Family.perCpuArray, .perCpuHash, .perCpuCgroupStorage],
      ∀ kind ∈ family.kinds, kind.isPerCpu = true := by decide
  constructor
  · intro room entries sized serves
    constructor
    case hash =>
      intro κ α _ _ view made single
      exact listsEntries_of_single (keyed .hash (by decide)) sized serves single made
    case perCpuHash =>
      intro κ α _ _ view positive made
      exact listsEntries_of_perCpu (keyed .perCpuHash (by decide)) sized serves
        (shared .perCpuHash (by decide)) positive made
    case sockhash =>
      intro κ _ view made
      have listed := (TypedMap.single_eq_ok.1 made).1.1
      exact listsEntries_of_single (keyed .sockhash (by decide)) sized serves
        (plain .sockhash (by decide) _ listed) made
    case mapInMap =>
      intro κ _ view made
      have listed := (TypedMap.single_eq_ok.1 made).1.1
      exact listsEntries_of_single (keyed .mapInMap (by decide)) sized serves
        (plain .mapInMap (by decide) _ listed) made
    case localStorage =>
      intro α _ family view member made
      have listed := (TypedMap.single_eq_ok.1 made).1.1
      have known : ∀ family ∈ [Family.skStorage, .inodeStorage, .taskStorage],
          ∀ kind ∈ family.kinds, kind.isKeyless = false ∧ kind.isPerCpu = false := by decide
      exact listsEntries_of_single (fun kind inside => (known family member kind inside).1) sized
        serves (known family member _ listed).2 made
    case cgroupStorage =>
      intro α _ view made
      have listed := (TypedMap.single_eq_ok.1 made).1.1
      exact listsEntries_of_single (keyed .cgroupStorage (by decide)) sized serves
        (plain .cgroupStorage (by decide) _ listed) made
    case perCpuCgroupStorage =>
      intro α _ view positive made
      exact listsEntries_of_perCpu (keyed .perCpuCgroupStorage (by decide)) sized serves
        (shared .perCpuCgroupStorage (by decide)) positive made
  · intro slots filled sized serves
    constructor
    case array =>
      intro α _ view made kind
      exact listsSlots_of_single (keyed .array (by decide)) filled sized serves
        (by rw [kind]; rfl) made
    case perCpuArray =>
      intro α _ view positive made
      exact listsSlots_of_perCpu (keyed .perCpuArray (by decide)) filled sized serves
        (shared .perCpuArray (by decide)) positive made

def loadRows : Descriptor where
  name := "loads"
  kind := .percpuArray
  keySize := 4
  valueSize := 8
  capacity := 2
  fd := 9
  ownsFd := true
  cpuCount := 2
  keyCodec := .hex
  valueCodec := .hex

def secondLoad : Array (Option Bytes) :=
  #[none, some [7, 0, 0, 0, 0, 0, 0, 0, 9, 0, 0, 0, 0, 0, 0, 0]]

theorem ports_and_loads_listed :
    ((∀ entry ∈ onePort.entries,
        entry.1.length = portMap.keySize ∧ entry.2.length = portMap.bufferSize) ∧
      portMap.kind.isPerCpu = false ∧
      ∃ view : TypedMap UInt16 UInt32, TypedMap.hash UInt16 UInt32 portMap = .ok view ∧
        ∃ pairs, ListsEntries view onePort (.ofStore (.hash 1 onePort)) pairs) ∧
    secondLoad.size = loadRows.capacity.toNat ∧ 0 < Element.size UInt64 ∧
      ∃ view : TypedMap UInt32 (List UInt64), TypedMap.perCpuArray UInt64 loadRows = .ok view ∧
        ∃ pairs, ListsSlots view secondLoad [0, 0] (.ofStore (.array secondLoad)) pairs := by
  have ports : TypedMap.hash UInt16 UInt32 portMap = .ok
      ⟨portMap, Content.single UInt32, .byFirstKey, _⟩ := rfl
  have loads : TypedMap.perCpuArray UInt64 loadRows = .ok
      ⟨loadRows, Content.perCpu UInt64 2, .byFirstKey, _⟩ := rfl
  have entriesSized : ∀ entry ∈ onePort.entries,
      entry.1.length = portMap.keySize ∧ entry.2.length = portMap.bufferSize := by decide
  have slotsSized : ∀ value, some value ∈ secondLoad → value.length = loadRows.bufferSize := by
    intro value member
    simp only [secondLoad, List.mem_toArray, List.mem_cons, Option.some.injEq, List.not_mem_nil,
      reduceCtorEq, or_false, false_or] at member
    rw [member]
    rfl
  have positive : 0 < Element.size UInt64 := by decide
  have entries := (enumeration_lists_contents portMap (.ofStore (.hash 1 onePort))).1 1 onePort
    entriesSized ⟨rfl, rfl, rfl⟩
  have slots := (enumeration_lists_contents loadRows (.ofStore (.array secondLoad))).2 secondLoad
    rfl slotsSized ⟨rfl, rfl, rfl⟩
  exact ⟨⟨entriesSized, rfl, _, ports, entries.hash _ _ _ ports rfl⟩, rfl, positive, _, loads,
    slots.perCpuArray _ _ positive loads⟩

end KernelMaps
