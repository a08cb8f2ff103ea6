import KernelMaps.Map.Typed
import KernelMaps.Proofs.Map.Calls
import KernelMaps.Proofs.Map.Ordered

/-!
Walks over a map that nobody else writes. One round asks for the key behind the last one and visits
it; a walk is as many rounds as there are results and one that finds the end. Over a hash it visits
every entry.
-/

namespace KernelMaps

def KeyWalk.given (walk : KeyWalk) : Option Bytes → Option (Except MapError Bytes) × KeyWalk
  | some key => (some (.ok key), { walk with current := some key })
  | none => (none, { walk with finished := true })

theorem KeyWalk.run_next {walk : KeyWalk} {map : Descriptor} {simulation after : Simulation}
    {found : Option Bytes} (going : walk.finished = false)
    (asked : simulation.run (match walk.current with
      | none => map.firstKey
      | some key => map.nextKey key) = (.ok found, after)) :
    (walk.next map).run Simulation.answer simulation = (walk.given found, after) := by
  obtain ⟨current, finished⟩ := walk
  obtain rfl : finished = false := going
  cases current with
  | none =>
      have first : Access.run Simulation.answer map.firstKey.run simulation = (.ok found, after) :=
        asked
      simp only [next, Bool.false_eq_true, if_false, Access.run_bind, first]
      cases found <;> rfl
  | some key =>
      have behind : Access.run Simulation.answer (map.nextKey key).run simulation =
          (.ok found, after) := asked
      simp only [next, Bool.false_eq_true, if_false, Access.run_bind, behind]
      cases found <;> rfl

/-- What the round at a place of a walk comes to: the result there, or the end behind them all. -/
def Round {α σ : Type} (places : Nat → σ) (results before : List α) (place : Nat) :
    (σ × List α) ⊕ List α :=
  match results[place]? with
  | some result => .inl (places (place + 1), result :: before)
  | none => .inr before.reverse

theorem uncons_drop {β : Type} {items rest : List β} {place : Nat} {item : β}
    (remaining : items.drop place = item :: rest) :
    items[place]? = some item ∧ items.drop (place + 1) = rest := by
  constructor
  · rw [← List.head?_drop, remaining, List.head?_cons]
  · rw [← List.drop_drop, remaining, List.drop_succ_cons, List.drop_zero]

section

variable {α σ : Type} {step : σ × List α → Attempt ((σ × List α) ⊕ List α)}
  {kept : Simulation → Prop} {places : Nat → σ} {results : List α}
  (round : ∀ simulation place before, kept simulation → place ≤ results.length →
    ∃ after, kept after ∧ simulation.run (step (places place, before)) =
      (.ok (Round places results before place), after))
include round

theorem Simulation.run_rounds_from {simulation : Simulation} (holds : kept simulation)
    {place : Nat} {rest : List α} (remaining : results.drop place = rest)
    (inside : place ≤ results.length) (before : List α) {budget : Nat}
    (enough : rest.length < budget) :
    ∃ after, kept after ∧ simulation.run (Attempt.loop step budget (places place, before)) =
      (.ok (some (before.reverse ++ rest)), after) := by
  induction rest generalizing simulation place before budget with
  | nil =>
      obtain ⟨budget, rfl⟩ := Nat.exists_eq_succ_of_ne_zero (Nat.ne_zero_of_lt enough)
      obtain ⟨after, holds, ran⟩ := round simulation place before holds inside
      have ended : results[place]? = none :=
        List.getElem?_eq_none (List.drop_eq_nil_iff.1 remaining)
      refine ⟨after, holds, ?_⟩
      rw [Simulation.run_loop_succ, ran, Round, ended, List.append_nil]
  | cons result rest ih =>
      obtain ⟨budget, rfl⟩ := Nat.exists_eq_succ_of_ne_zero (Nat.ne_zero_of_lt enough)
      obtain ⟨between, holds, ran⟩ := round simulation place before holds inside
      obtain ⟨here, others⟩ := uncons_drop remaining
      have below := (List.getElem?_eq_some_iff.1 here).1
      obtain ⟨after, holds, looped⟩ :=
        ih holds others below (result :: before) (Nat.lt_of_succ_lt_succ enough)
      refine ⟨after, holds, ?_⟩
      rw [Simulation.run_loop_succ, ran, Round, here]
      simp only [looped, List.reverse_cons, List.append_assoc, List.singleton_append]

theorem Simulation.run_rounds {simulation : Simulation} (holds : kept simulation) {budget : Nat}
    (enough : results.length < budget) :
    ∃ after, kept after ∧
      simulation.run (Attempt.loop step budget (places 0, [])) = (.ok (some results), after) :=
  Simulation.run_rounds_from round holds List.drop_zero (Nat.zero_le _) [] enough

end

def KeyWalk.place (stored : List (Bytes × Bytes)) : Nat → KeyWalk
  | 0 => .start
  | count + 1 => ⟨stored[count]?.map Prod.fst, false⟩

theorem Simulation.run_collectKeys {α : Type} {map : Descriptor}
    {visit : Bytes → Attempt (Option α)} {reading : Bytes × Bytes → α} {kept : Simulation → Prop}
    {stored : List (Bytes × Bytes)}
    (next : ∀ simulation count, kept simulation → count ≤ stored.length → ∃ after, kept after ∧
      ((KeyWalk.place stored count).next map).run answer simulation =
        ((KeyWalk.place stored count).given (stored[count]?.map Prod.fst), after))
    (reads : ∀ simulation, kept simulation → ∀ entry ∈ stored, ∃ after, kept after ∧
      simulation.run (visit entry.1) = (.ok (some (reading entry)), after))
    {simulation : Simulation} (holds : kept simulation) {budget : Nat}
    (enough : stored.length < budget) :
    ∃ after, kept after ∧
      simulation.run (collectKeys map visit budget) = (.ok (some (stored.map reading)), after) := by
  have round : ∀ simulation count before, kept simulation →
      count ≤ (stored.map reading).length →
        ∃ after, kept after ∧
          simulation.run (collectNext map visit (KeyWalk.place stored count, before)) =
            (.ok (Round (KeyWalk.place stored) (stored.map reading) before count), after) := by
    intro simulation count before holds inside
    rw [List.length_map] at inside
    obtain ⟨between, holds, walked⟩ := next simulation count holds inside
    cases here : stored[count]? with
    | none =>
        refine ⟨between, holds, ?_⟩
        simp only [collectNext, Simulation.run_bind, Simulation.run_lift, walked, here,
          Option.map_none, KeyWalk.given, Round, List.getElem?_map]
        rfl
    | some entry =>
        obtain ⟨after, holds, visited⟩ := reads between holds entry (List.mem_of_getElem? here)
        refine ⟨after, holds, ?_⟩
        simp only [collectNext, Simulation.run_bind, Simulation.run_lift, walked, here,
          Option.map_some, KeyWalk.given, visited, Round, List.getElem?_map]
        cases count <;> simp [KeyWalk.place, here, KeyWalk.start]
  exact Simulation.run_rounds round holds (by rwa [List.length_map])

theorem Store.updateHash_eq_ok {capacity : Nat} {entries changed : OrderedMap}
    {key value : Bytes} {flags : UInt64}
    (updated : updateHash capacity entries key value flags = .ok changed) :
    changed = entries.insert key value := by
  unfold updateHash at updated
  grind

theorem Store.update_cases {store changed : Store} {key : Option Bytes} {value : Bytes}
    {flags : UInt64} (updated : store.update key value flags = .ok changed) :
    (∃ slots index, indexOf key = .ok index ∧ index < slots.size ∧
      (store = array slots ∧ changed = array (slots.setIfInBounds index (some value)) ∨
        store = references slots ∧ changed = references (slots.setIfInBounds index (some value)))) ∨
    (∃ capacity entries here, key = some here ∧ store = hash capacity entries ∧
      changed = hash capacity (entries.insert here value)) ∨
    ∃ newestFirst capacity items longer, key = none ∧
      store = sequence newestFirst capacity items ∧
      changed = sequence newestFirst capacity longer := by
  cases store with
  | array slots =>
      simp only [update, bind_eq_ok] at updated
      obtain ⟨index, number, updated⟩ := updated
      by_cases outside : slots.size ≤ index
      · simp [outside, bind, Except.bind] at updated
      by_cases creates : flags = createOnly
      · simp [outside, creates, bind, Except.bind] at updated
      simp only [outside, creates, if_false] at updated
      exact .inl ⟨slots, index, number, by omega, .inl ⟨rfl, (Except.ok.inj updated).symm⟩⟩
  | references slots =>
      simp only [update, bind_eq_ok] at updated
      obtain ⟨index, number, updated⟩ := updated
      by_cases outside : slots.size ≤ index
      · simp [outside, bind, Except.bind] at updated
      simp only [outside, if_false] at updated
      exact .inl ⟨slots, index, number, by omega, .inr ⟨rfl, (Except.ok.inj updated).symm⟩⟩
  | hash capacity entries =>
      cases key with
      | none => contradiction
      | some key =>
          simp only [update, bind_eq_ok] at updated
          obtain ⟨inserted, granted, same⟩ := updated
          obtain rfl := updateHash_eq_ok granted
          exact .inr (.inl ⟨capacity, entries, key, rfl, rfl, (Except.ok.inj same).symm⟩)
  | sequence newestFirst capacity items =>
      cases key with
      | some key => contradiction
      | none =>
          simp only [update] at updated
          cases appended : append capacity items value flags with
          | error errno => simp [appended, bind, Except.bind] at updated
          | ok longer =>
              rw [appended] at updated
              exact .inr (.inr ⟨newestFirst, capacity, items, longer, rfl, rfl,
                (Except.ok.inj updated).symm⟩)

theorem Store.nextKey_hash (capacity : Nat) (entries : OrderedMap) (current : Option Bytes)
    (room : Nat) :
    (Store.hash capacity entries).nextKey current room =
      match entries.keyFrom? current with
      | some key => copyTo room key
      | none => .error .noEntry := by
  cases current <;> rfl

/-- A hash of this room that no call fails on, with entries of the sizes that its descriptor has. -/
structure ServesEntries (map : Descriptor) (room : Nat) (entries : OrderedMap)
    (simulation : Simulation) : Prop where
  keyed : map.kind.isKeyless = false
  sized : ∀ entry ∈ entries.entries,
    entry.1.length = map.keySize ∧ entry.2.length = map.bufferSize
  serves : simulation.Serves (.hash room entries)

namespace ServesEntries

variable {map : Descriptor} {room : Nat} {entries : OrderedMap} {simulation : Simulation}

theorem keyArgument (served : ServesEntries map room entries simulation) {key : Bytes}
    (exact : key.length = map.keySize) : map.keyArgument key = .ok (some key) :=
  Descriptor.keyArgument_of_keyed served.keyed exact

theorem lookup (served : ServesEntries map room entries simulation) {key : Bytes}
    (exact : key.length = map.keySize) :
    ∃ after, ServesEntries map room entries after ∧
      simulation.run (map.lookup key) = (.ok (entries.get? key), after) := by
  obtain ⟨after, answered, kept⟩ := served.serves.answer (.lookup (some key) map.bufferSize)
  refine ⟨after, { served with serves := kept }, ?_⟩
  rw [Simulation.run_lookup, served.keyArgument exact]
  simp only [answered, Store.answer, Store.lookup]
  cases found : entries.get? key with
  | none => rfl
  | some value =>
      have size := (served.sized _ (OrderedMap.get?_eq_some_iff.1 found)).2
      simp only [Store.copyTo, size, if_true, Descriptor.handedOut, fitted_of_length _ _ size]

theorem update (served : ServesEntries map room entries simulation) {key value : Bytes}
    (keyExact : key.length = map.keySize) (valueExact : value.length = map.bufferSize)
    (flags : UInt64) :
    ∃ after, match Store.updateHash room entries key value flags with
      | .ok changed => ServesEntries map room changed after ∧
          simulation.run (map.update key value flags) = (.ok (), after)
      | .error errno => ServesEntries map room entries after ∧
          simulation.run (map.update key value flags) =
            (.error (.call .updatingValue (.system errno)), after) := by
  obtain ⟨after, updated⟩ :=
    served.serves.run_update (served.keyArgument keyExact) valueExact flags
  refine ⟨after, ?_⟩
  simp only [Store.update] at updated
  cases changed : Store.updateHash room entries key value flags with
  | error errno =>
      rw [changed] at updated
      exact ⟨{ served with serves := updated.1 }, updated.2⟩
  | ok inserted =>
      rw [changed] at updated
      refine ⟨⟨served.keyed, ?_, updated.1⟩, updated.2⟩
      intro entry member
      rw [Store.updateHash_eq_ok changed] at member
      obtain rfl | old := OrderedMap.mem_insert member
      · exact ⟨keyExact, valueExact⟩
      · exact served.sized entry old

theorem delete (served : ServesEntries map room entries simulation) {key : Bytes}
    (exact : key.length = map.keySize) :
    ∃ after, if (entries.get? key).isSome then
        ServesEntries map room (entries.erase key) after ∧
          simulation.run (map.delete key) = (.ok (), after)
      else
        ServesEntries map room entries after ∧
          simulation.run (map.delete key) = (.error .keyNotFound, after) := by
  obtain ⟨after, answered, kept⟩ := served.serves.answer (.delete key)
  refine ⟨after, ?_⟩
  have checked : map.checkKey key = .ok () := by simp [Descriptor.checkKey, exact]
  rw [Simulation.run_delete, checked]
  simp only [answered]
  simp only [Store.answer, Store.delete] at kept ⊢
  split
  · next present =>
      rw [if_pos present] at kept
      refine ⟨⟨served.keyed, ?_, kept⟩, rfl⟩
      exact fun entry member => served.sized entry (OrderedMap.mem_erase member)
  · next absent =>
      rw [if_neg absent] at kept
      exact ⟨{ served with serves := kept }, rfl⟩

theorem step (served : ServesEntries map room entries simulation) {current : Option Bytes}
    {found : Option (Bytes × Bytes)} (inside : ∀ entry, found = some entry → entry ∈ entries.entries)
    (behind : entries.keyFrom? current = found.map Prod.fst) :
    ∃ after, ServesEntries map room entries after ∧
      simulation.run (map.stepKey current) = (.ok (found.map Prod.fst), after) := by
  obtain ⟨after, answered, kept⟩ := served.serves.answer (.nextKey current map.keySize)
  refine ⟨after, { served with serves := kept }, ?_⟩
  rw [Simulation.run_stepKey]
  simp only [answered, Store.answer, Store.nextKey_hash, behind]
  cases found with
  | none => rfl
  | some entry =>
      have size := (served.sized entry (inside entry rfl)).1
      simp only [Option.map_some, Store.copyTo, size, if_true, Descriptor.handedOut,
        fitted_of_length _ _ size]

theorem next (served : ServesEntries map room entries simulation) {count : Nat}
    (inside : count ≤ entries.entries.length) :
    ∃ after, ServesEntries map room entries after ∧
      ((KeyWalk.place entries.entries count).next map).run Simulation.answer simulation =
        ((KeyWalk.place entries.entries count).given (entries.entries[count]?.map Prod.fst),
          after) := by
  have known : ∀ entry, entries.entries[count]? = some entry → entry ∈ entries.entries :=
    fun _ found => List.mem_of_getElem? found
  cases count with
  | zero =>
      have first : entries.keyFrom? none = entries.entries[0]?.map Prod.fst := by
        rw [OrderedMap.keyFrom?, OrderedMap.firstKey?, List.head?_eq_getElem?]
      obtain ⟨after, kept, stepped⟩ := served.step known first
      exact ⟨after, kept, KeyWalk.run_next rfl stepped⟩
  | succ count =>
      have split := List.take_append_drop count entries.entries
      rw [List.drop_eq_getElem_cons inside] at split
      have behind : entries.keyFrom? (some entries.entries[count].1) =
          entries.entries[count + 1]?.map Prod.fst := by
        rw [OrderedMap.keyFrom?, OrderedMap.keyAfter?_of_split split.symm, List.head?_drop]
      obtain ⟨after, kept, stepped⟩ := served.step known behind
      have checked : map.checkKey entries.entries[count].1 = .ok () := by
        simp [Descriptor.checkKey, (served.sized _ (List.getElem_mem inside)).1]
      refine ⟨after, kept, KeyWalk.run_next rfl ?_⟩
      simp only [KeyWalk.place, List.getElem?_eq_getElem inside, Option.map_some, Simulation.run_nextKey,
        checked, stepped]

theorem runWalk {α : Type} {visit : Bytes → Attempt (Option α)} {reading : Bytes × Bytes → α}
    (reads : ∀ simulation, ServesEntries map room entries simulation →
      ∀ entry ∈ entries.entries, ∃ after, ServesEntries map room entries after ∧
        simulation.run (visit entry.1) = (.ok (some (reading entry)), after))
    (served : ServesEntries map room entries simulation) :
    ∃ after, ServesEntries map room entries after ∧
      simulation.runWalk (collectKeys map visit) =
        (.ok (entries.entries.map reading), after) := by
  have budget : simulation.store.walkBudget = entries.entries.length + 1 := by
    rw [served.serves.store]
    rfl
  obtain ⟨after, kept, collected⟩ := Simulation.run_collectKeys
    (fun _ _ served inside => ServesEntries.next served inside) reads served
    (Nat.lt_succ_self entries.entries.length)
  refine ⟨after, kept, ?_⟩
  rw [Simulation.runWalk, budget, collected]
  rfl

theorem run_get {κ ν : Type} [Element κ] (served : ServesEntries map room entries simulation)
    (view : TypedMap κ ν) (same : view.map = map) (keys : map.keySize = Element.size κ) (key : κ) :
    ∃ after, ServesEntries map room entries after ∧
      simulation.run (view.get key) =
        (match entries.get? (Element.encode key) with
          | some bytes => view.content.unpack bytes
          | none => .error .keyNotFound, after) := by
  have exact : (Element.encode key).length = map.keySize := by rw [Element.encode_length, keys]
  obtain ⟨after, kept, found⟩ := served.lookup exact
  refine ⟨after, kept, ?_⟩
  rw [TypedMap.get, same, Simulation.run_bind, found]
  cases entries.get? (Element.encode key) <;> rfl

end ServesEntries

theorem TypedMap.run_visit {κ ν : Type} [Element κ] {view : TypedMap κ ν} {key : Bytes} {value : ν}
    {simulation after : Simulation} (exact : key.length = Element.size κ)
    (got : simulation.run (view.get (Element.decode key)) = (.ok value, after)) :
    simulation.run (view.visit key) = (.ok (some (Element.decode key, value)), after) := by
  simp only [visit, readElement_of_length exact, Simulation.run_bind, Simulation.run_liftM,
    Simulation.run_tryCatch, got]
  rfl

end KernelMaps
