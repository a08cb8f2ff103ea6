import KernelMaps.Proofs.Map.Dumps
import KernelMaps.Proofs.Map.Tandem
import KernelMaps.Proofs.Map.ViewSizes

/-!
Enumerations and dumps of one map. Given the same replies, the walk of a typed view and that of the
text table make the same calls and end alike, and the elements of the one are what the bytes of the
other are read as. Only single values over a map of rows cannot be read, so that the enumeration
fails with the first element that there is.
-/

namespace KernelMaps

open Attempt (Tandem Agree AgreeUntilFound)

variable {κ ν α : Type} [Element κ] [Element α]

def Readings (reads : ν → Bytes → Prop) : List (κ × ν) → List (Bytes × Bytes) → Prop :=
  List.Forall₂ fun element entry => Element.encode element.1 = entry.1 ∧ reads element.2 entry.2

def IsValueOf (value : α) (bytes : Bytes) : Prop :=
  Element.encode value = bytes

def IsRowOf (cpus : Nat) (row : List α) (bytes : Bytes) : Prop :=
  row.length = cpus ∧ row.flatMap Element.encode = bytes

theorem tandem_collectKeys {β γ : Type} {map : Descriptor} {stop : Option MapError}
    {belong : β → γ → Prop} {visit : Bytes → Attempt (Option β)} {look : Bytes → Attempt (Option γ)}
    (each : ∀ key, key.length = map.keySize →
      Tandem (Option.Rel belong) stop (visit key).run (look key).run) (budget : Nat) :
    Tandem (Option.Rel (List.Forall₂ belong)) stop (collectKeys map visit budget).run
      (collectKeys map look budget).run := by
  -- both walks are at the same key, which came from the map, and have collected as much
  let states (left : KeyWalk × List β) (right : KeyWalk × List γ) : Prop :=
    left.1 = right.1 ∧ HasLength map.keySize left.1.current ∧ List.Forall₂ belong left.2 right.2
  refine Attempt.tandem_loop states ?_ budget ⟨rfl, hasLength_none _, .nil⟩
  rintro ⟨walk, found⟩ ⟨_, others⟩ ⟨rfl, stands, related⟩
  have yields := KeyWalk.next_yields stands
  refine (Attempt.tandem_lift yields (walk.next_looks_up_nothing map)).bind ?_
  rintro ⟨_ | error | key, walk⟩ _ ⟨rfl, stepped⟩
  · exact Attempt.tandem_pure (.inr (List.rel_reverse related))
  · exact Attempt.tandem_throw error
  · refine (each key (stepped.key key rfl)).bind ?_
    intro result other same
    cases same with
    | none => exact Attempt.tandem_pure (.inr (List.rel_reverse related))
    | some alike =>
        exact Attempt.tandem_pure (.inl ⟨rfl, stepped.position, .cons alike related⟩)

theorem le_length_of_collectKeys_result? {β : Type} {map : Descriptor}
    {visit : Bytes → Attempt (Option β)} {budget : Nat} {replies : List Reply}
    (ended : (collectKeys map visit budget).run.result? replies = some (.ok none)) :
    budget ≤ replies.length := by
  let going (state : KeyWalk × List β) : Prop :=
    state.1.finished = false ∧ HasLength map.keySize state.1.current
  refine Attempt.le_length_of_loop_result? going ?_ ⟨rfl, hasLength_none _⟩ ended
  rintro ⟨walk, found⟩ ⟨unfinished, stands⟩
  rw [collectNext, ExceptT.run_bind, ExceptT.run_lift, KeyWalk.next_of_going unfinished stands]
  refine ⟨_, _, rfl, ?_⟩
  intro reply
  have goesOn (key : Bytes)
      (given : (walk.told (Descriptor.handedOut .gettingNextKey map.keySize reply)).1 =
        some (.ok key)) (others : List β) :
      going ((walk.told (Descriptor.handedOut .gettingNextKey map.keySize reply)).2, others) := by
    cases reply with
    | ok bytes => exact ⟨unfinished, hasLength_some (fitted_length ..)⟩
    | error errno =>
        rw [Descriptor.handedOut] at given
        split at given <;> cases given
  beta_reduce
  generalize walk.told (Descriptor.handedOut .gettingNextKey map.keySize reply) = told at goesOn
  obtain ⟨_ | error | key, walk⟩ := told
  · exact Attempt.ends_pure trivial
  · exact Attempt.ends_throw trivial
  · refine (Attempt.ends_of_forall (fun _ => trivial) (fun _ => trivial) (visit key)).bind ?_
    intro result _
    cases result with
    | none => exact Attempt.ends_pure trivial
    | some result => exact Attempt.ends_pure (goesOn key rfl _)

namespace TypedMap

variable {view : TypedMap κ ν} {reads : ν → Bytes → Prop}

def Readable (view : TypedMap κ ν) (reads : ν → Bytes → Prop) : Prop :=
  ∀ bytes, bytes.length = view.map.bufferSize →
    ∃ value, view.content.unpack bytes = .ok value ∧ reads value bytes

theorem Keyed.tandem_visit (keyed : view.Keyed) {stop : Option MapError}
    (readable : stop = none → view.Readable reads)
    (unreadable : ∀ error, stop = some error → view.Unreadable error ∧ error ≠ .keyNotFound)
    (key : Bytes) (sized : key.length = view.map.keySize) :
    Tandem (Option.Rel fun (element : κ × ν) (entry : Bytes × Bytes) =>
      Element.encode element.1 = entry.1 ∧ reads element.2 entry.2) stop
      (view.visit key).run (view.map.element key).run := by
  have exact : key.length = Element.size κ := sized.trans keyed.keys
  have encoded : Element.encode (Element.decode key : κ) = key := Element.encode_decode key exact
  have fits := keyed.callKeySize (Element.decode key)
  rw [encoded] at fits
  have argument := Descriptor.keyArgument_of_length fits
  rw [visit, readElement_of_length exact, Descriptor.element]
  show Tandem _ stop (tryCatch (view.get (Element.decode key) >>= _) _ : Attempt _).run _
  rw [ExceptT.run_tryCatch, get, encoded, Descriptor.lookup, argument]
  refine .call ?_ ?_
  · intro reply missed
    cases reply with
    | error errno =>
        by_cases absent : errno = .noEntry
        · subst absent
          exact .done (.ended .none)
        · have refused : Descriptor.handedOut .gettingValue view.map.bufferSize (.error errno) =
              .error (.call .gettingValue (.system errno)) := if_neg absent
          show Tandem _ stop
            (((liftM (Descriptor.handedOut _ _ (.error errno)) >>= _ : Attempt ν) >>= _ :
              Attempt (Option (κ × ν))).run >>= _)
            (liftM (Descriptor.handedOut _ _ (.error errno)) >>= _ : Attempt _).run
          rw [refused]
          exact .done (.failed _)
    | ok bytes =>
        have going : stop = none := by
          rcases missed with going | looks | failed
          · exact going
          · cases looks
          · cases failed
        obtain ⟨value, unpacked, reads⟩ := readable going (fitted view.map.bufferSize bytes)
          (fitted_length ..)
        show Tandem _ stop
          ((liftM (view.content.unpack (fitted _ bytes)) >>= _ : Attempt _).run >>= _) _
        rw [unpacked]
        exact .done (.ended (.some ⟨encoded, reads⟩))
  · intro error bytes same looks
    obtain ⟨unread, other⟩ := unreadable error same
    show ((liftM (view.content.unpack (fitted _ bytes)) >>= _ : Attempt _).run >>= _) = _
    rw [unread _ (fitted_length ..)]
    cases error <;> first | rfl | contradiction

end TypedMap

/-! Enumerations beside dumps. -/

/-- Whether a view enumerates what the text table of a map dumps: both make the same calls and fail
alike, or give as many elements as entries, which are what these are read as. They run out of rounds
only where they got as many replies. -/
structure EnumeratesDumps (view : TypedMap κ ν) (reads : ν → Bytes → Prop) (map : Descriptor) :
    Prop where
  agree : ∀ factor budget, Agree (Option.Rel (Readings reads)) (view.enumerate budget)
    ((Table.mk map factor).dumpBytes budget)
  outlasts : ∀ budget replies, (view.enumerate budget).run.result? replies = some (.ok none) →
    budget ≤ replies.length

/-- Whether a view enumerates as the text table of a map dumps, up to the first element that there
is, and fails there for its size. -/
structure StopsAtElements (view : TypedMap κ α) (map : Descriptor) : Prop where
  agree : ∀ factor budget, AgreeUntilFound (Option.Rel (Readings IsValueOf))
    (.badValueSize map.valueSize map.bufferSize) (view.enumerate budget)
    ((Table.mk map factor).dumpBytes budget)
  outlasts : ∀ budget replies, (view.enumerate budget).run.result? replies = some (.ok none) →
    budget ≤ replies.length

/-- What enumerations of single values do over a map: they give what is dumped if a value is a whole
element, and nothing if it is a part of one. -/
structure EnumeratesSingles (view : TypedMap κ α) (map : Descriptor) : Prop where
  whole : map.HoldsSingles → EnumeratesDumps view IsValueOf map
  parted : ¬map.HoldsSingles → StopsAtElements view map

namespace TypedMap

section

variable {view : TypedMap κ ν} {reads : ν → Bytes → Prop} (keyed : view.Keyed)
include keyed

theorem Keyed.enumeratesDumps (readable : view.Readable reads) :
    EnumeratesDumps view reads view.map where
  agree _ budget := by
    have unstopped (error : MapError) (impossible : none = some error) :
        view.Unreadable error ∧ error ≠ .keyNotFound := nomatch impossible
    exact (tandem_collectKeys (keyed.tandem_visit (fun _ => readable) unstopped) budget).agree
  outlasts _ _ := le_length_of_collectKeys_result?

theorem Keyed.agreeUntilFound {expected actual : Nat}
    (unreadable : view.Unreadable (.badValueSize expected actual)) (factor budget : Nat) :
    AgreeUntilFound (Option.Rel (Readings reads)) (.badValueSize expected actual)
      (view.enumerate budget) ((Table.mk view.map factor).dumpBytes budget) := by
  have stopping (error : MapError) (same : some (.badValueSize expected actual) = some error) :
      view.Unreadable error ∧ error ≠ .keyNotFound := by
    obtain rfl := Option.some.inj same
    exact ⟨unreadable, nofun⟩
  have unread (impossible : some (MapError.badValueSize expected actual) = none) :
      view.Readable reads := nomatch impossible
  exact (tandem_collectKeys (keyed.tandem_visit unread stopping) budget).agreeUntilFound

end

variable {map : Descriptor} {family : Family} {summary : Descriptor → String}

theorem single_enumeratesDumps {clearing : Clearing} {view : TypedMap κ α}
    (keyed : ∀ kind ∈ family.kinds, kind.isKeyless = false)
    (made : single κ α family clearing summary map = .ok view)
    (whole : map.bufferSize = map.valueSize) : EnumeratesDumps view IsValueOf map := by
  have own := keyed_of_single keyed made
  have values := (single_eq_ok.1 made).1.2.2
  obtain ⟨rfl, fits⟩ := fits_of_single whole made
  refine own.enumeratesDumps ?_
  intro bytes fills
  exact ⟨_, fits.values bytes fills, Element.encode_decode bytes (fills.trans (whole.trans values))⟩

theorem single_enumerates {clearing : Clearing} {view : TypedMap κ α}
    (keyed : ∀ kind ∈ family.kinds, kind.isKeyless = false) (positive : 0 < Element.size α)
    (made : single κ α family clearing summary map = .ok view) : EnumeratesSingles view map := by
  have values := (single_eq_ok.1 made).1.2.2
  have whole := Descriptor.bufferSize_eq_valueSize_iff values positive
  constructor
  · intro holds
    exact single_enumeratesDumps keyed made (whole.2 holds)
  · intro parted
    have unreadable := single_unreadable made fun same => parted (whole.1 same)
    have own := keyed_of_single keyed made
    obtain ⟨-, rfl⟩ := single_eq_ok.1 made
    exact ⟨own.agreeUntilFound unreadable, fun _ _ => le_length_of_collectKeys_result?⟩

theorem plain_enumeratesDumps {clearing : Clearing} {view : TypedMap κ α}
    (plain : ∀ kind ∈ family.kinds, kind.isKeyless = false ∧ kind.isPerCpu = false)
    (made : single κ α family clearing summary map = .ok view) :
    EnumeratesDumps view IsValueOf map :=
  single_enumeratesDumps (fun kind listed => (plain kind listed).1) made
    (Descriptor.bufferSize_of_single (plain _ (single_eq_ok.1 made).1.1).2)

theorem isRowOf_readRow {cpus : Nat} {bytes : Bytes}
    (fills : bytes.length = cpus * Element.size α) : IsRowOf cpus (readRow α cpus bytes) bytes := by
  constructor
  · rw [readRow, List.length_map, slots_length]
  · have same : (slots cpus (Element.size α) bytes).flatMap (fun slot =>
        Element.encode (Element.decode (slot.take (Element.size α)) : α)) =
          (slots cpus (Element.size α) bytes).flatMap id := by
      refine List.flatMap_congr ?_
      intro slot member
      have exact := length_of_mem_slots fills member
      rw [List.take_of_length_le (Nat.le_of_eq exact), Element.encode_decode slot exact, id]
    rw [readRow, List.flatMap_map, same, List.flatMap_id, flatten_slots fills]

theorem perCpu_enumeratesDumps {view : TypedMap κ (List α)}
    (shared : ∀ kind ∈ family.kinds, kind.isKeyless = false ∧ kind.isPerCpu = true)
    (positive : 0 < Element.size α) (made : perCpu κ α family summary map = .ok view) :
    EnumeratesDumps view (IsRowOf map.cpus) map := by
  obtain ⟨⟨listed, keys, aligned, values⟩, -⟩ := perCpu_eq_ok.1 made
  obtain ⟨keyed, several⟩ := shared _ listed
  obtain ⟨rfl, fits⟩ := fits_of_perCpu several positive made
  have own : view.Keyed := ⟨keyed, keys⟩
  refine own.enumeratesDumps ?_
  intro bytes fills
  refine ⟨_, fits.values bytes fills, isRowOf_readRow ?_⟩
  exact fills.trans (Descriptor.bufferSize_of_aligned several values positive aligned).1

end TypedMap

structure ViewEnumerations (map : Descriptor) : Prop where
  array : ∀ (α : Type) [Element α] (view : TypedMap UInt32 α), 0 < Element.size α →
    TypedMap.array α map = .ok view → EnumeratesSingles view map
  perCpuArray : ∀ (α : Type) [Element α] (view : TypedMap UInt32 (List α)), 0 < Element.size α →
    TypedMap.perCpuArray α map = .ok view → EnumeratesDumps view (IsRowOf map.cpus) map
  hash : ∀ (κ α : Type) [Element κ] [Element α] (view : TypedMap κ α), 0 < Element.size α →
    TypedMap.hash κ α map = .ok view → EnumeratesSingles view map
  perCpuHash : ∀ (κ α : Type) [Element κ] [Element α] (view : TypedMap κ (List α)),
    0 < Element.size α → TypedMap.perCpuHash κ α map = .ok view →
      EnumeratesDumps view (IsRowOf map.cpus) map
  mapInMap : ∀ (κ : Type) [Element κ] (view : TypedMap κ Int32),
    TypedMap.mapInMap κ map = .ok view → EnumeratesDumps view IsValueOf map
  references : ∀ (family : Family) (view : TypedMap UInt32 Int32),
    family ∈ [Family.progArray, .cgroupArray, .devmap, .xskmap, .sockmap] →
      TypedMap.references family map = .ok view → EnumeratesDumps view IsValueOf map
  sockhash : ∀ (κ : Type) [Element κ] (view : TypedMap κ Int32),
    TypedMap.sockhash κ map = .ok view → EnumeratesDumps view IsValueOf map
  localStorage : ∀ (α : Type) [Element α] (family : Family) (view : TypedMap Int32 α),
    family ∈ [Family.skStorage, .inodeStorage, .taskStorage] →
      TypedMap.localStorage α family map = .ok view → EnumeratesDumps view IsValueOf map
  cgroupStorage : ∀ (α : Type) [Element α] (view : TypedMap CgroupKey α),
    TypedMap.cgroupStorage α map = .ok view → EnumeratesDumps view IsValueOf map
  perCpuCgroupStorage : ∀ (α : Type) [Element α] (view : TypedMap CgroupKey (List α)),
    0 < Element.size α → TypedMap.perCpuCgroupStorage α map = .ok view →
      EnumeratesDumps view (IsRowOf map.cpus) map

theorem enumerations_go_along_with_dumps (map : Descriptor) : ViewEnumerations map := by
  constructor
  case array => exact fun α _ view => TypedMap.single_enumerates (by decide)
  case perCpuArray => exact fun α _ view => TypedMap.perCpu_enumeratesDumps (by decide)
  case hash => exact fun κ α _ _ view => TypedMap.single_enumerates (by decide)
  case perCpuHash => exact fun κ α _ _ view => TypedMap.perCpu_enumeratesDumps (by decide)
  case mapInMap => exact fun κ _ view => TypedMap.plain_enumeratesDumps (by decide)
  case references =>
    intro family view member
    have plain : ∀ family ∈ [Family.progArray, .cgroupArray, .devmap, .xskmap, .sockmap],
        ∀ kind ∈ family.kinds, kind.isKeyless = false ∧ kind.isPerCpu = false := by decide
    exact TypedMap.plain_enumeratesDumps (plain family member)
  case sockhash => exact fun κ _ view => TypedMap.plain_enumeratesDumps (by decide)
  case localStorage =>
    intro α _ family view member
    have plain : ∀ family ∈ [Family.skStorage, .inodeStorage, .taskStorage],
        ∀ kind ∈ family.kinds, kind.isKeyless = false ∧ kind.isPerCpu = false := by decide
    exact TypedMap.plain_enumeratesDumps (plain family member)
  case cgroupStorage => exact fun α _ view => TypedMap.plain_enumeratesDumps (by decide)
  case perCpuCgroupStorage => exact fun α _ view => TypedMap.perCpu_enumeratesDumps (by decide)

theorem lone_counters_not_enumerated :
    0 < Element.size UInt64 ∧ ¬cpuCounters.HoldsSingles ∧
    (∃ rows : TypedMap UInt32 (List UInt64),
      TypedMap.perCpuHash UInt32 UInt64 cpuCounters = .ok rows ∧
        EnumeratesDumps rows (IsRowOf 2) cpuCounters) ∧
    ∃ singles : TypedMap UInt32 UInt64, TypedMap.hash UInt32 UInt64 cpuCounters = .ok singles ∧
      ∀ row, (singles.enumerate 3).run.result? [.ok [1, 0, 0, 0], .ok row] =
        some (.error (.badValueSize 8 16)) := by
  have positive : 0 < Element.size UInt64 := by decide
  have parted : ¬cpuCounters.HoldsSingles := fun holds => absurd (holds rfl).1 (by decide)
  have rows : TypedMap.perCpuHash UInt32 UInt64 cpuCounters = .ok
      ⟨cpuCounters, Content.perCpu UInt64 2, .byFirstKey, _⟩ := rfl
  have singles : TypedMap.hash UInt32 UInt64 cpuCounters = .ok
      ⟨cpuCounters, Content.single UInt64, .byFirstKey, _⟩ := rfl
  have enumerations := enumerations_go_along_with_dumps cpuCounters
  have stops := (enumerations.hash _ _ _ positive singles).parted parted
  refine ⟨positive, parted, ⟨_, rows, enumerations.perCpuHash _ _ _ positive rows⟩, _, singles, ?_⟩
  intro row
  have awaits : ((Table.mk cpuCounters 8).dumpBytes 3).run.awaits [.ok [1, 0, 0, 0]] =
      some (.lookup (some [1, 0, 0, 0]) 16) := rfl
  exact ((stops.agree 8 3).stops [.ok [1, 0, 0, 0]] _ row [] ⟨nofun, trivial⟩ awaits rfl).2

end KernelMaps
