import KernelMaps.Codec.Hex
import KernelMaps.Proofs.Map.Walks
import KernelMaps.Proofs.Refinement
import Mathlib.Data.Finmap
import Mathlib.Data.Finset.Sort

/-!
Hash tables as finite maps. The entries of a hash are read as a map from typed keys to typed
values, which is possible in one way only because every key has one byte form. On every run a table
then answers what the finite map answers, and its contents stay those of the finite map.
-/

namespace KernelMaps

namespace Element

variable {κ : Type} [Element κ]

theorem encode_injective {first second : κ} (same : encode first = encode second) :
    first = second := by
  rw [← decode_encode first, same, decode_encode]

theorem decode_inj {first second : Bytes} (firstExact : first.length = size κ)
    (secondExact : second.length = size κ) (same : (decode first : κ) = decode second) :
    first = second := by
  rw [← encode_decode first firstExact, same, encode_decode second secondExact]

def NotAfter (first second : κ) : Prop :=
  precedes (encode second) (encode first) = false

instance : DecidableRel (NotAfter (κ := κ)) :=
  fun _ _ => inferInstanceAs (Decidable (_ = _))

instance : Std.Total (NotAfter (κ := κ)) where
  total first second := by
    by_contra neither
    simp only [NotAfter, not_or, Bool.not_eq_false] at neither
    have back := precedes_trans neither.1 neither.2
    rw [precedes_irrefl] at back
    exact Bool.false_ne_true back

instance : Std.Antisymm (NotAfter (κ := κ)) where
  antisymm first second before after := by
    obtain below | same | above := precedes_or_eq_or_precedes (encode first) (encode second)
    · exact absurd (after.symm.trans below) Bool.false_ne_true
    · exact encode_injective same
    · exact absurd (before.symm.trans above) Bool.false_ne_true

instance : IsTrans κ NotAfter where
  trans first second third lower upper := by
    obtain below | same | above := precedes_or_eq_or_precedes (encode second) (encode third)
    · by_contra after
      rw [NotAfter, Bool.not_eq_false] at after
      exact absurd (lower.symm.trans (precedes_trans below after)) Bool.false_ne_true
    · rw [← encode_injective same]
      exact lower
    · exact absurd (upper.symm.trans above) Bool.false_ne_true

end Element

abbrev FiniteMap (κ α : Type) := Finmap fun _ : κ => α

def FiniteMap.listing {κ α : Type} [Element κ] [DecidableEq κ] (model : FiniteMap κ α) :
    List (κ × α) :=
  (model.keys.sort Element.NotAfter).filterMap fun key =>
    (model.lookup key).map fun value => (key, value)

inductive HashCall (κ α : Type) where
  | get (key : κ)
  | update (key : κ) (value : α)
  | updateWith (key : κ) (value : α) (flags : UInt64)
  | remove (key : κ)
  | capacity
  | enumerate

inductive HashAnswer (κ α : Type) where
  | value (value : α)
  | done
  | capacity (count : Nat)
  | entries (listed : List (κ × α))

namespace HashCall

variable {κ α : Type}

def ask [Element κ] (view : TypedMap κ α) (call : HashCall κ α) (simulation : Simulation) :
    Except MapError (HashAnswer κ α) × Simulation :=
  match call with
  | get key => Prod.map (Except.map .value) id (simulation.run (view.get key))
  | update key value =>
      Prod.map (Except.map fun _ => .done) id (simulation.run (view.update key value))
  | updateWith key value flags =>
      Prod.map (Except.map fun _ => .done) id (simulation.run (view.updateWith key value flags))
  | remove key => Prod.map (Except.map fun _ => .done) id (simulation.run (view.remove key))
  | capacity => (.ok (.capacity view.capacity), simulation)
  | enumerate => Prod.map (Except.map .entries) id (simulation.runWalk view.enumerate)

def refusal (errno : Nat) : MapError :=
  .call .updatingValue (.system ⟨errno⟩)

/-- Sets one key of a finite map with at most so many keys. -/
def put [DecidableEq κ] (limit : Nat) (key : κ) (value : α) (flags : UInt64)
    (model : FiniteMap κ α) : Except MapError (HashAnswer κ α) × FiniteMap κ α :=
  if flags = 1 ∧ key ∈ model then (.error (refusal 17), model)
  else if flags = 2 ∧ key ∉ model then (.error (refusal 2), model)
  else if key ∉ model ∧ limit ≤ model.keys.card then (.error (refusal 7), model)
  else (.ok .done, model.insert key value)

def answer [Element κ] [DecidableEq κ] (limit : Nat) (call : HashCall κ α)
    (model : FiniteMap κ α) : Except MapError (HashAnswer κ α) × FiniteMap κ α :=
  match call with
  | get key =>
      match model.lookup key with
      | some value => (.ok (.value value), model)
      | none => (.error .keyNotFound, model)
  | update key value => put limit key value 0 model
  | updateWith key value flags => put limit key value flags model
  | remove key =>
      if key ∈ model then (.ok .done, model.erase key) else (.error .keyNotFound, model)
  | capacity => (.ok (.capacity limit), model)
  | enumerate => (.ok (.entries model.listing), model)

end HashCall

theorem FiniteMap.keys_insert {κ α : Type} [DecidableEq κ] (model : FiniteMap κ α) (key : κ)
    (value : α) : (Finmap.insert key value model).keys = insert key model.keys := by
  ext other
  rw [Finmap.mem_keys, Finmap.mem_insert, Finset.mem_insert, Finmap.mem_keys]

namespace HashCall

variable {κ α : Type} [DecidableEq κ] {limit : Nat} {model : FiniteMap κ α}

theorem put_within (within : model.keys.card ≤ limit) (key : κ) (value : α) (flags : UInt64) :
    (put limit key value flags model).2.keys.card ≤ limit := by
  unfold put
  split
  · exact within
  · split
    · exact within
    · split
      · exact within
      · next room =>
          rw [FiniteMap.keys_insert]
          by_cases present : key ∈ model
          · rwa [Finset.insert_eq_of_mem (Finmap.mem_keys.2 present)]
          · have grown := Finset.card_insert_le key model.keys
            have below : ¬limit ≤ model.keys.card := fun full => room ⟨present, full⟩
            omega

theorem answer_within [Element κ] (within : model.keys.card ≤ limit) (call : HashCall κ α) :
    (call.answer limit model).2.keys.card ≤ limit := by
  cases call with
  | get key =>
      rw [answer]
      split <;> exact within
  | update key value => exact put_within within key value 0
  | updateWith key value flags => exact put_within within key value flags
  | remove key =>
      rw [answer]
      split
      · rw [Finmap.keys_erase]
        exact Nat.le_trans Finset.card_erase_le within
      · exact within
  | capacity => exact within
  | enumerate => exact within

end HashCall

/-- Whether a finite map has the typed readings of some entries. -/
def OrderedMap.Reads {κ α : Type} [Element κ] [Element α] [DecidableEq κ] (entries : OrderedMap)
    (model : FiniteMap κ α) : Prop :=
  ∀ key, model.lookup key = (entries.get? (Element.encode key)).map Element.decode

namespace OrderedMap.Reads

variable {κ α : Type} [Element κ] [Element α] [DecidableEq κ] {entries : OrderedMap}
  {model : FiniteMap κ α}

theorem mem_iff (reads : entries.Reads model) (key : κ) :
    key ∈ model ↔ (entries.get? (Element.encode key)).isSome := by
  rw [← Finmap.lookup_isSome, reads key, Option.isSome_map]

theorem insert (reads : entries.Reads model) (key : κ) (value : α) :
    (entries.insert (Element.encode key) (Element.encode value)).Reads
      (Finmap.insert key value model) := by
  intro other
  rw [get?_insert]
  by_cases same : key = other
  · rw [same, Finmap.lookup_insert, if_pos rfl, Option.map_some, Element.decode_encode]
  · rw [Finmap.lookup_insert_of_ne model (Ne.symm same), reads other,
      if_neg fun encoded => same (Element.encode_injective encoded)]

theorem erase (reads : entries.Reads model) (key : κ) :
    (entries.erase (Element.encode key)).Reads (Finmap.erase key model) := by
  intro other
  rw [get?_erase]
  by_cases same : key = other
  · rw [same, Finmap.lookup_erase, if_pos rfl, Option.map_none]
  · rw [Finmap.lookup_erase_ne (Ne.symm same), reads other,
      if_neg fun encoded => same (Element.encode_injective encoded)]

end OrderedMap.Reads

namespace OrderedMap

variable {κ α : Type} [Element κ] [Element α] {entries : OrderedMap}

def readEntry (κ α : Type) [Element κ] [Element α] (entry : Bytes × Bytes) : κ × α :=
  (Element.decode entry.1, Element.decode entry.2)

variable (keysExact : ∀ entry ∈ entries.entries, entry.1.length = Element.size κ)
include keysExact

theorem nodup_readKeys : (entries.entries.map fun entry => (Element.decode entry.1 : κ)).Nodup := by
  have keys := entries.nodup_keys
  rw [List.Nodup, List.pairwise_map] at keys ⊢
  refine keys.imp_of_mem ?_
  intro first second firstMem secondMem differ same
  exact differ (Element.decode_inj (keysExact first firstMem) (keysExact second secondMem) same)

theorem pairwise_readKeys :
    (entries.entries.map fun entry => (Element.decode entry.1 : κ)).Pairwise Element.NotAfter := by
  rw [List.pairwise_map]
  refine entries.ascending.imp_of_mem ?_
  intro first second firstMem secondMem before
  rw [Element.NotAfter, Element.encode_decode _ (keysExact first firstMem),
    Element.encode_decode _ (keysExact second secondMem)]
  by_contra after
  rw [Bool.not_eq_false] at after
  have back := precedes_trans before after
  rw [precedes_irrefl] at back
  exact Bool.false_ne_true back

variable [DecidableEq κ]

def Shows (entries : OrderedMap) (model : FiniteMap κ α) : Prop :=
  entries.entries =
    model.listing.map fun entry => (Element.encode entry.1, Element.encode entry.2)

namespace Reads

variable {model : FiniteMap κ α}

theorem keys_eq (reads : entries.Reads model) :
    model.keys = (entries.entries.map fun entry => (Element.decode entry.1 : κ)).toFinset := by
  ext key
  rw [Finmap.mem_keys, reads.mem_iff, Option.isSome_iff_exists, List.mem_toFinset, List.mem_map]
  constructor
  · rintro ⟨value, found⟩
    exact ⟨_, get?_eq_some_iff.1 found, Element.decode_encode key⟩
  · rintro ⟨entry, member, rfl⟩
    rw [Element.encode_decode _ (keysExact entry member)]
    exact ⟨entry.2, get?_eq_some_iff.2 member⟩

theorem card_keys (reads : entries.Reads model) : model.keys.card = entries.size := by
  rw [reads.keys_eq keysExact, List.toFinset_card_of_nodup (nodup_readKeys keysExact),
    List.length_map, size]

theorem listing_eq (reads : entries.Reads model) :
    model.listing = entries.entries.map (readEntry κ α) := by
  have sorted := (List.toFinset_sort Element.NotAfter (nodup_readKeys (κ := κ) keysExact)).2
    (pairwise_readKeys keysExact)
  have found : ∀ entry ∈ entries.entries,
      model.lookup (Element.decode entry.1) = some (Element.decode entry.2) := by
    intro entry member
    rw [reads, Element.encode_decode _ (keysExact entry member), get?_eq_some_iff.2 member,
      Option.map_some]
  rw [FiniteMap.listing, reads.keys_eq keysExact, sorted, List.filterMap_map,
    ← List.filterMap_eq_map]
  refine List.filterMap_congr ?_
  intro entry member
  simp only [Function.comp_apply, found entry member, Option.map_some]
  rfl

theorem shows (reads : entries.Reads model)
    (valuesExact : ∀ entry ∈ entries.entries, entry.2.length = Element.size α) :
    entries.Shows model := by
  rw [Shows, reads.listing_eq keysExact, List.map_map, eq_comm]
  refine (List.map_congr_left ?_).trans (List.map_id entries.entries)
  intro entry member
  simp only [Function.comp_apply, readEntry, Element.encode_decode _ (keysExact entry member),
    Element.encode_decode _ (valuesExact entry member)]
  rfl

end Reads

theorem exists_reads : ∃ model : FiniteMap κ α, entries.Reads model := by
  refine ⟨(entries.entries.map fun entry =>
    (⟨Element.decode entry.1, Element.decode entry.2⟩ : Sigma fun _ : κ => α)).toFinmap, ?_⟩
  intro key
  have distinct : (entries.entries.map fun entry =>
      (⟨Element.decode entry.1, Element.decode entry.2⟩ : Sigma fun _ : κ => α)).NodupKeys := by
    rw [List.NodupKeys, List.keys, List.map_map]
    exact nodup_readKeys keysExact
  rw [Finmap.dlookup_list_toFinmap]
  ext value
  rw [← Option.mem_def, List.mem_dlookup_iff distinct, List.mem_map, Option.map_eq_some_iff]
  constructor
  · rintro ⟨entry, member, same⟩
    cases same
    rw [Element.encode_decode _ (keysExact entry member)]
    exact ⟨entry.2, get?_eq_some_iff.2 member, rfl⟩
  · rintro ⟨bytes, found, rfl⟩
    exact ⟨_, get?_eq_some_iff.1 found, by rw [Element.decode_encode]⟩

end OrderedMap

namespace ServesEntries

variable {κ α : Type} [Element κ] [Element α] {map : Descriptor} {room : Nat}
  {entries : OrderedMap} {simulation : Simulation}
  (keys : map.keySize = Element.size κ) (values : map.bufferSize = Element.size α)
include keys

theorem keysExact (served : ServesEntries map room entries simulation) :
    ∀ entry ∈ entries.entries, entry.1.length = Element.size κ :=
  fun entry member => (served.sized entry member).1.trans keys

theorem encoded (key : κ) : (Element.encode key).length = map.keySize := by
  rw [Element.encode_length, keys]

include values

theorem get (served : ServesEntries map room entries simulation) (clearing : Clearing)
    (summary : String) (key : κ) :
    ∃ after, ServesEntries map room entries after ∧
      simulation.run (TypedMap.get ⟨map, Content.single α, clearing, summary⟩ key) =
        (match entries.get? (Element.encode key) with
          | some value => .ok (Element.decode value)
          | none => .error .keyNotFound, after) := by
  obtain ⟨after, kept, got⟩ :=
    served.run_get ⟨map, Content.single α, clearing, summary⟩ rfl keys key
  refine ⟨after, kept, ?_⟩
  rw [got]
  cases stored : entries.get? (Element.encode key) with
  | none => rfl
  | some value =>
      have size := (served.sized _ (OrderedMap.get?_eq_some_iff.1 stored)).2.trans values
      simp only [Content.single, readElement_of_length size]

theorem enumerate (served : ServesEntries map room entries simulation) (clearing : Clearing)
    (summary : String) :
    ∃ after, ServesEntries map room entries after ∧
      simulation.runWalk
        (TypedMap.enumerate (⟨map, Content.single α, clearing, summary⟩ : TypedMap κ α)) =
        (.ok (entries.entries.map (OrderedMap.readEntry κ α)), after) := by
  refine served.runWalk ?_
  intro simulation served entry member
  have exact := served.keysExact keys entry member
  obtain ⟨after, kept, got⟩ := served.get keys values clearing summary
    (Element.decode entry.1)
  refine ⟨after, kept, ?_⟩
  rw [Element.encode_decode _ exact, OrderedMap.get?_eq_some_iff.2 member] at got
  exact TypedMap.run_visit exact got

end ServesEntries

namespace HashCall

variable {κ α : Type} [Element κ] [Element α] [DecidableEq κ] {map : Descriptor}

def Holds (map : Descriptor) (simulation : Simulation) (model : FiniteMap κ α) : Prop :=
  ∃ entries, ServesEntries map map.capacity.toNat entries simulation ∧ entries.Reads model

theorem put_eq {entries : OrderedMap} {model : FiniteMap κ α} (reads : entries.Reads model)
    (count : model.keys.card = entries.size) (limit : Nat) (key : κ) (value : α) (flags : UInt64) :
    put limit key value flags model =
      match Store.updateHash limit entries (Element.encode key) (Element.encode value) flags with
      | .ok _ => (.ok .done, Finmap.insert key value model)
      | .error errno => (.error (.call .updatingValue (.system errno)), model) := by
  simp only [put, Store.updateHash, Store.createOnly, Store.replaceOnly, reads.mem_iff, count,
    Bool.not_eq_true, Bool.not_eq_true']
  split
  · rfl
  · split
    · rfl
    · split <;> rfl

variable (keys : map.keySize = Element.size κ) (values : map.bufferSize = Element.size α)
include keys values

theorem put_agrees {simulation : Simulation} {model : FiniteMap κ α}
    (holds : Holds map simulation model) (clearing : Clearing) (summary : String) (key : κ)
    (value : α) (flags : UInt64) :
    ((updateWith key value flags).ask ⟨map, Content.single α, clearing, summary⟩ simulation).1 =
        (put map.capacity.toNat key value flags model).1 ∧
      Holds map
        ((updateWith key value flags).ask ⟨map, Content.single α, clearing, summary⟩ simulation).2
        (put map.capacity.toNat key value flags model).2 := by
  obtain ⟨entries, served, reads⟩ := holds
  have valueExact : (Element.encode value).length = map.bufferSize := by
    rw [Element.encode_length, values]
  obtain ⟨after, updated⟩ := served.update (ServesEntries.encoded keys key) valueExact flags
  rw [put_eq reads (reads.card_keys (served.keysExact keys)), ask]
  simp only [TypedMap.updateWith, Content.single, Simulation.run_bind, Simulation.run_liftM]
  cases changed : Store.updateHash map.capacity.toNat entries (Element.encode key)
      (Element.encode value) flags with
  | error errno =>
      rw [changed] at updated
      rw [updated.2]
      exact ⟨rfl, entries, updated.1, reads⟩
  | ok inserted =>
      rw [changed] at updated
      rw [updated.2]
      refine ⟨rfl, inserted, updated.1, ?_⟩
      rw [Store.updateHash_eq_ok changed]
      exact reads.insert key value

/-- One call: the table answers what the finite map answers, and both change alike. -/
theorem ask_agrees {simulation : Simulation} {model : FiniteMap κ α}
    (holds : Holds map simulation model) (clearing : Clearing) (summary : String)
    (call : HashCall κ α) :
    (call.ask ⟨map, Content.single α, clearing, summary⟩ simulation).1 =
        (call.answer map.capacity.toNat model).1 ∧
      Holds map (call.ask ⟨map, Content.single α, clearing, summary⟩ simulation).2
        (call.answer map.capacity.toNat model).2 := by
  have held := holds
  obtain ⟨entries, served, reads⟩ := holds
  cases call with
  | get key =>
      obtain ⟨after, kept, got⟩ :=
        served.get keys values clearing summary key
      rw [ask, got, answer, reads key]
      cases entries.get? (Element.encode key) with
      | none => exact ⟨rfl, entries, kept, reads⟩
      | some value => exact ⟨rfl, entries, kept, reads⟩
  | update key value => exact put_agrees keys values held clearing summary key value 0
  | updateWith key value flags => exact put_agrees keys values held clearing summary key value flags
  | remove key =>
      obtain ⟨after, removed⟩ := served.delete (ServesEntries.encoded keys key)
      rw [ask, TypedMap.remove, answer]
      simp only [reads.mem_iff]
      split at removed
      · next present =>
          rw [if_pos present, removed.2]
          exact ⟨rfl, _, removed.1, reads.erase key⟩
      · next absent =>
          rw [if_neg absent, removed.2]
          exact ⟨rfl, entries, removed.1, reads⟩
  | capacity => exact ⟨rfl, held⟩
  | enumerate =>
      obtain ⟨after, kept, walked⟩ :=
        served.enumerate keys values clearing summary
      rw [ask, walked, answer, reads.listing_eq (served.keysExact keys)]
      exact ⟨rfl, entries, kept, reads⟩

end HashCall

/-- On every run over a hash in memory, a table answers what a finite map answers that started with
the same entries; afterwards the entries are the same again, and never more than there is room. -/
theorem hash_refines_finite_map {κ α : Type} [Element κ] [Element α] [DecidableEq κ]
    {map : Descriptor} {view : TypedMap κ α} {entries : OrderedMap} {simulation : Simulation}
    (made : TypedMap.hash κ α map = .ok view) (shared : map.kind = .hash ∨ map.kind = .lruHash)
    (sized : ∀ entry ∈ entries.entries,
      entry.1.length = map.keySize ∧ entry.2.length = map.valueSize)
    (within : entries.size ≤ map.capacity.toNat)
    (serves : simulation.Serves (.hash map.capacity.toNat entries)) :
    ∃ initial : FiniteMap κ α, entries.Shows initial ∧ ∀ calls : List (HashCall κ α),
      let run := runCalls (HashCall.ask view) calls simulation
      let expected := runCalls (HashCall.answer map.capacity.toNat) calls initial
      run.1 = expected.1 ∧ expected.2.keys.card ≤ map.capacity.toNat ∧
        ∃ contents : OrderedMap, run.2.Serves (.hash map.capacity.toNat contents) ∧
          contents.Shows expected.2 := by
  obtain ⟨⟨_, keys, values⟩, rfl⟩ := TypedMap.single_eq_ok.1 made
  have plain : map.kind.isKeyless = false ∧ map.kind.isPerCpu = false := by
    obtain kind | kind := shared <;> rw [kind] <;> exact ⟨rfl, rfl⟩
  have buffer : map.bufferSize = map.valueSize := Descriptor.bufferSize_of_single plain.2
  have served : ServesEntries map map.capacity.toNat entries simulation :=
    ⟨plain.1, by rwa [buffer], serves⟩
  rw [← buffer] at values
  have shows : ∀ {contents : OrderedMap} {model : FiniteMap κ α} {simulation : Simulation},
      ServesEntries map map.capacity.toNat contents simulation → contents.Reads model →
        contents.Shows model := fun served reads =>
    reads.shows (served.keysExact keys) fun entry member =>
      (served.sized entry member).2.trans values
  obtain ⟨initial, reads⟩ := OrderedMap.exists_reads (α := α) (served.keysExact keys)
  refine ⟨initial, shows served reads, ?_⟩
  intro calls
  have room : initial.keys.card ≤ map.capacity.toNat := by
    rwa [reads.card_keys (served.keysExact keys)]
  obtain ⟨same, ⟨contents, kept, reads⟩, within⟩ := runCalls_simulate
    (fun simulation model =>
      HashCall.Holds map simulation model ∧ model.keys.card ≤ map.capacity.toNat)
    (fun call simulation model related =>
      have step := HashCall.ask_agrees keys values related.1 _ _ call
      ⟨step.1, step.2, HashCall.answer_within related.2 call⟩)
    calls (show HashCall.Holds map simulation initial ∧ _ from ⟨⟨entries, served, reads⟩, room⟩)
  exact ⟨same, within, contents, kept.serves, shows kept reads⟩

def portMap : Descriptor where
  name := "ports"
  kind := .lruHash
  keySize := 2
  valueSize := 4
  capacity := 1
  fd := 3
  ownsFd := true
  cpuCount := 2
  keyCodec := .hex
  valueCodec := .hex

def onePort : OrderedMap :=
  OrderedMap.empty.insert [80, 0] [1, 0, 0, 0]

theorem full_table_refines :
    (∀ entry ∈ onePort.entries,
      entry.1.length = portMap.keySize ∧ entry.2.length = portMap.valueSize) ∧
    onePort.size ≤ portMap.capacity.toNat ∧
    ∃ view : TypedMap UInt16 UInt32, TypedMap.hash UInt16 UInt32 portMap = .ok view ∧
      ∃ initial : FiniteMap UInt16 UInt32, onePort.Shows initial ∧
        (runCalls (HashCall.ask view)
          [.updateWith 80 2 1, .updateWith 443 3 2, .update 443 3, .remove 80, .enumerate]
          (.ofStore (.hash 1 onePort))).1 =
        (runCalls (HashCall.answer 1)
          [.updateWith 80 2 1, .updateWith 443 3 2, .update 443 3, .remove 80, .enumerate]
          initial).1 := by
  have sized : ∀ entry ∈ onePort.entries,
      entry.1.length = portMap.keySize ∧ entry.2.length = portMap.valueSize := by decide
  have within : onePort.size ≤ portMap.capacity.toNat := by decide
  have made : TypedMap.hash UInt16 UInt32 portMap = .ok
      ⟨portMap, Content.single UInt32, .byFirstKey, _⟩ := rfl
  have serves : (Simulation.ofStore (.hash 1 onePort)).Serves
      (.hash portMap.capacity.toNat onePort) := ⟨rfl, rfl, rfl⟩
  obtain ⟨initial, shows, runs⟩ := hash_refines_finite_map made (Or.inr rfl) sized within serves
  exact ⟨sized, within, _, made, initial, shows, (runs _).1⟩

end KernelMaps
