import KernelMaps.Codec.Hex
import KernelMaps.Proofs.Map.Attempts
import KernelMaps.Proofs.Map.Walks
import Mathlib.Data.Finset.Card

/-!
Walks over a hash that others write in the meantime. Between two keys of a walk anything may happen
to the map: elements come and go, calls are refused and accepted again. A walk still never goes back,
so that it gives no key twice and comes to an end. What was there each time it asked, it has either
given already or has yet to come to.
-/

namespace KernelMaps

namespace OrderedMap

def isBehind : Option Bytes → Bytes → Bool
  | none, _ => true
  | some key, other => precedes key other

variable {map : OrderedMap} {current : Option Bytes}

theorem keyFrom?_eq_find? (map : OrderedMap) (current : Option Bytes) :
    map.keyFrom? current =
      (map.entries.find? fun entry => isBehind current entry.1).map Prod.fst := by
  cases current with
  | none =>
      rw [keyFrom?, firstKey?]
      cases map.entries <;> rfl
  | some key => rfl

theorem keyFrom?_eq_some {key : Bytes} (found : map.keyFrom? current = some key) :
    isBehind current key = true ∧ ∀ other value, map.get? other = some value →
      isBehind current other = true → other = key ∨ precedes key other = true := by
  rw [keyFrom?_eq_find?, Option.map_eq_some_iff] at found
  obtain ⟨entry, found, rfl⟩ := found
  obtain ⟨behind, front, rest, split, passed⟩ := List.find?_eq_some_iff_append.1 found
  refine ⟨behind, ?_⟩
  intro other value stored after
  have ascending := map.ascending
  have member := get?_eq_some_iff.1 stored
  rw [split] at ascending member
  rcases List.mem_append.1 member with early | late
  · have before := passed _ early
    rw [after] at before
    contradiction
  · rcases List.mem_cons.1 late with same | later
    · exact Or.inl (congrArg Prod.fst same)
    · have above := (List.pairwise_cons.1 (List.pairwise_append.1 ascending).2.1).1
      exact Or.inr (above _ later)

theorem keyFrom?_eq_none (ended : map.keyFrom? current = none) {other value : Bytes}
    (stored : map.get? other = some value) : isBehind current other = false := by
  rw [keyFrom?_eq_find?, Option.map_eq_none_iff, List.find?_eq_none] at ended
  simpa using ended _ (get?_eq_some_iff.1 stored)

end OrderedMap

theorem Store.answer_hash (room : Nat) (entries : OrderedMap) (request : Request) :
    ∃ changed, ((Store.hash room entries).answer request).2 = .hash room changed := by
  cases request with
  | lookup key room => exact ⟨entries, rfl⟩
  | nextKey key room => exact ⟨entries, rfl⟩
  | update key value flags =>
      simp only [answer, update]
      cases key with
      | none => exact ⟨entries, rfl⟩
      | some key =>
          dsimp only
          cases updateHash room entries key value flags with
          | error errno => exact ⟨entries, rfl⟩
          | ok changed => exact ⟨changed, rfl⟩
  | delete key =>
      simp only [answer, delete]
      split
      · exact ⟨_, rfl⟩
      · exact ⟨entries, rfl⟩
  | take key room =>
      simp only [answer, take]
      cases key with
      | none => exact ⟨entries, rfl⟩
      | some key =>
          dsimp only
          split
          · exact ⟨entries, rfl⟩
          · exact ⟨_, rfl⟩

namespace Simulation

/-- Whether an element is there, and no failure is scheduled that passes for the end of the keys. -/
def Offers (simulation : Simulation) (key : Bytes) : Prop :=
  (∃ value, simulation.store.taken? (some key) = some value) ∧
    ∀ fault ∈ simulation.faults, fault.primitive = .nextKey → fault.errno ≠ .noEntry

theorem answer_nextKey {simulation : Simulation} {room : Nat} {entries : OrderedMap}
    (hash : simulation.store = .hash room entries) (current : Option Bytes) (size : Nat) :
    ∃ reply after, simulation.answer (.nextKey current size) = (reply, after) ∧
      after.store = .hash room entries ∧
      ((∃ key, reply = .ok key ∧ key.length = size ∧ entries.keyFrom? current = some key) ∨
        ∃ errno, reply = .error errno ∧ (errno = .noEntry →
          (∀ fault ∈ simulation.faults, fault.primitive = .nextKey → fault.errno ≠ .noEntry) →
            entries.keyFrom? current = none)) := by
  rw [answer]
  split
  · refine ⟨_, _, rfl, hash, .inr ⟨.badFile, rfl, ?_⟩⟩
    intro absent
    contradiction
  · split
    · next fault scheduled =>
        refine ⟨_, _, rfl, hash, .inr ⟨fault.errno, rfl, ?_⟩⟩
        intro absent truthful
        have refused := List.find?_some scheduled
        simp only [Fault.refuses, Bool.and_eq_true, decide_eq_true_eq] at refused
        exact absurd absent
          (truthful fault (List.mem_of_find?_eq_some scheduled) refused.1.1)
    · rw [hash]
      refine ⟨_, _, rfl, rfl, ?_⟩
      rw [Store.nextKey_hash]
      cases entries.keyFrom? current with
      | none => exact .inr ⟨.noEntry, rfl, fun _ _ => rfl⟩
      | some key =>
          dsimp only
          by_cases fits : key.length = size
          · exact .inl ⟨key, if_pos fits, fits, rfl⟩
          · refine .inr ⟨.invalid, if_neg fits, ?_⟩
            intro absent
            contradiction

end Simulation

def KeyWalk.told (walk : KeyWalk) :
    Except MapError (Option Bytes) → Option (Except MapError Bytes) × KeyWalk
  | .ok found => walk.given found
  | .error error => (some (.error error), { walk with finished := true })

theorem KeyWalk.next_of_going {walk : KeyWalk} {map : Descriptor} (going : walk.finished = false)
    (sized : ∀ key, walk.current = some key → key.length = map.keySize) :
    walk.next map = .call (.nextKey walk.current map.keySize) fun reply =>
      .done (walk.told (Descriptor.handedOut .gettingNextKey map.keySize reply)) := by
  obtain ⟨current, finished⟩ := walk
  obtain rfl : finished = false := going
  have asked : next map ⟨current, false⟩ = (map.stepKey current).run >>= fun found =>
      pure (told ⟨current, false⟩ found) := by
    cases current with
    | none =>
        refine congrArg ((map.stepKey none).run >>= ·) (funext fun found => ?_)
        rcases found with error | ⟨_ | key⟩ <;> rfl
    | some key =>
        have checked : map.nextKey key = map.stepKey (some key) := by
          rw [Descriptor.nextKey, Descriptor.checkKey, if_neg (not_not.2 (sized key rfl))]
          rfl
        simp only [next, Bool.false_eq_true, if_false, checked]
        refine congrArg ((map.stepKey (some key)).run >>= ·) (funext fun found => ?_)
        rcases found with error | ⟨_ | key⟩ <;> rfl
  exact asked

theorem KeyWalk.run_next_of_going {β : Type} [Backend β] {walk : KeyWalk} {map : Descriptor}
    (going : walk.finished = false)
    (sized : ∀ key, walk.current = some key → key.length = map.keySize) (backend : β) :
    (walk.next map).run Backend.answer backend =
      let (reply, after) := Backend.answer (.nextKey walk.current map.keySize) backend
      (walk.told (Descriptor.handedOut .gettingNextKey map.keySize reply), after) := by
  rw [next_of_going going sized]
  rfl

/-- A map that recalls how it stood each time it was asked, newest first. -/
structure Recalling where
  map : Simulation
  met : List Simulation

instance : Backend Recalling where
  answer request recalling :=
    let (reply, map) := recalling.map.answer request
    (reply, ⟨map, recalling.map :: recalling.met⟩)

/-- What happens while a walk goes on: it is asked for its next key, another client makes a call on
the same map, or other calls are refused than before. -/
inductive WalkEvent where
  | next
  | call (request : Request)
  | schedule (faults : List Fault)

def WalkEvent.isNext : WalkEvent → Bool
  | next => true
  | call _ | schedule _ => false

/-- A walk with the map behind it, which recalls only what the walk asks, and what the walk
answered, newest first. -/
structure SharedWalk where
  walk : KeyWalk
  backend : Recalling
  answers : List (Option (Except MapError Bytes))

namespace SharedWalk

def start (map : Simulation) : SharedWalk := ⟨.start, ⟨map, []⟩, []⟩

def step (map : Descriptor) (shared : SharedWalk) : WalkEvent → SharedWalk
  | .next =>
      let ((answer, walk), backend) := (shared.walk.next map).run Backend.answer shared.backend
      ⟨walk, backend, answer :: shared.answers⟩
  | .call request =>
      { shared with backend.map := (shared.backend.map.answer request).2 }
  | .schedule faults =>
      { shared with backend.map.faults := faults }

def answering (shared : SharedWalk) (walk : KeyWalk) (after : Simulation)
    (answer : Option (Except MapError Bytes)) : SharedWalk :=
  ⟨walk, ⟨after, shared.backend.map :: shared.backend.met⟩, answer :: shared.answers⟩

def run (map : Descriptor) (events : List WalkEvent) (shared : SharedWalk) : SharedWalk :=
  events.foldl (step map) shared

def givenKey? : Option (Except MapError Bytes) → Option Bytes
  | some (.ok key) => some key
  | _ => none

def keys (shared : SharedWalk) : List Bytes :=
  (shared.answers.filterMap givenKey?).reverse

def IsOver (shared : SharedWalk) : Prop :=
  ∃ answer ∈ shared.answers, givenKey? answer = none

def EndedNormally (shared : SharedWalk) : Prop :=
  none ∈ shared.answers ∧ ∀ error, some (.error error) ∉ shared.answers

inductive Stage where
  | going
  | ended
  | failed (error : MapError)

namespace Stage

def isOver : Stage → Bool
  | going => false
  | ended | failed _ => true

def closing (count : Nat) : Stage → List (Option (Except MapError Bytes))
  | going => []
  | ended => List.replicate (count + 1) none
  | failed error => List.replicate count none ++ [some (.error error)]

/-- What a walk owes to a key that was there each time it asked: it has come to it, or may still. -/
def Owes (given : List Bytes) (key : Bytes) : Stage → Prop
  | going => key ∈ given ∨ OrderedMap.isBehind given.head? key = true
  | ended => key ∈ given
  | failed _ => True

theorem givenKey?_of_mem_closing {stage : Stage} {count : Nat}
    {answer : Option (Except MapError Bytes)} (member : answer ∈ stage.closing count) :
    givenKey? answer = none := by
  cases stage with
  | going => cases member
  | ended =>
      rw [List.eq_of_mem_replicate member]
      rfl
  | failed error =>
      rcases List.mem_append.1 member with again | first
      · rw [List.eq_of_mem_replicate again]
        rfl
      · rw [List.mem_singleton.1 first]
        rfl

end Stage

/-- How far a walk has come that gave some keys, newest first. -/
structure Course (map : Descriptor) (shared : SharedWalk) (given : List Bytes) (stage : Stage) :
    Prop where
  hash : ∃ room entries, shared.backend.map.store = .hash room entries
  walk : shared.walk = ⟨given.head?, stage.isOver⟩
  answers : ∃ count, shared.answers = stage.closing count ++ given.map fun key => some (.ok key)
  sized : ∀ key ∈ given, key.length = map.keySize
  descending : given.Pairwise fun later earlier => precedes earlier later = true
  owes : ∀ key, (∀ met ∈ shared.backend.met, met.Offers key) → stage.Owes given key

theorem step_next_of_finished (map : Descriptor) {shared : SharedWalk}
    (finished : shared.walk.finished = true) :
    shared.step map .next = { shared with answers := none :: shared.answers } := by
  obtain ⟨⟨current, ended⟩, backend, answers⟩ := shared
  obtain rfl : ended = true := finished
  rfl

namespace Course

variable {map : Descriptor} {shared : SharedWalk} {given : List Bytes} {stage : Stage}

theorem start (map : Descriptor) {simulation : Simulation} {room : Nat} {entries : OrderedMap}
    (hash : simulation.store = .hash room entries) :
    Course map (SharedWalk.start simulation) [] .going where
  hash := ⟨room, entries, hash⟩
  walk := rfl
  answers := ⟨0, rfl⟩
  sized := by simp
  descending := List.Pairwise.nil
  owes _ _ := .inr rfl

theorem stay (course : Course map shared given stage) (ended : stage.isOver = true) :
    Course map (shared.step map .next) given stage := by
  have finished : shared.walk.finished = true := by rw [course.walk, ended]
  obtain ⟨count, answered⟩ := course.answers
  rw [step_next_of_finished map finished]
  refine { course with answers := ⟨count + 1, ?_⟩ }
  rw [answered]
  cases stage with
  | going => contradiction
  | ended => rfl
  | failed error => rfl

theorem ask_cases (course : Course map shared given .going) {room : Nat} {entries : OrderedMap}
    (hash : shared.backend.map.store = .hash room entries) :
    ∃ after, after.store = .hash room entries ∧
      ((∃ key, shared.step map .next = shared.answering ⟨some key, false⟩ after (some (.ok key)) ∧
          key.length = map.keySize ∧ entries.keyFrom? given.head? = some key) ∨
        (shared.step map .next = shared.answering ⟨given.head?, true⟩ after none ∧
          ((∀ fault ∈ shared.backend.map.faults,
            fault.primitive = .nextKey → fault.errno ≠ .noEntry) →
              entries.keyFrom? given.head? = none)) ∨
        ∃ error, shared.step map .next =
          shared.answering ⟨given.head?, true⟩ after (some (.error error))) := by
  have going : shared.walk.finished = false := by rw [course.walk]; rfl
  have current : shared.walk.current = given.head? := by rw [course.walk]
  have sized : ∀ key, shared.walk.current = some key → key.length = map.keySize := by
    intro key last
    rw [current] at last
    exact course.sized key (List.mem_of_head? last)
  have ran := KeyWalk.run_next_of_going going sized shared.backend
  rw [current] at ran
  obtain ⟨reply, after, replied, kept, outcome⟩ :=
    Simulation.answer_nextKey hash given.head? map.keySize
  have recalled : Backend.answer (.nextKey given.head? map.keySize) shared.backend =
      (reply, ⟨after, shared.backend.map :: shared.backend.met⟩) := by
    simp only [Backend.answer, replied]
  rw [recalled] at ran
  refine ⟨after, kept, ?_⟩
  rcases outcome with ⟨key, rfl, fits, found⟩ | ⟨errno, rfl, ended⟩
  · refine Or.inl ⟨key, ?_, fits, found⟩
    simp only [step, answering, ran, Descriptor.handedOut, fitted_of_length _ _ fits, KeyWalk.told,
      KeyWalk.given, going]
  · refine Or.inr ?_
    by_cases absent : errno = .noEntry
    · refine Or.inl ⟨?_, ended absent⟩
      simp only [step, answering, ran, Descriptor.handedOut, absent, if_true, KeyWalk.told,
        KeyWalk.given, current]
    · refine Or.inr ⟨.call .gettingNextKey (.system errno), ?_⟩
      simp only [step, answering, ran, Descriptor.handedOut, absent, if_false, KeyWalk.told,
        current]

/-- What is there now and was there each time before is a key that was given, or one that stands
behind the last of these. -/
theorem owed (course : Course map shared given .going) {room : Nat} {entries : OrderedMap}
    (hash : shared.backend.map.store = .hash room entries) {key : Bytes}
    (offered : ∀ met ∈ shared.backend.map :: shared.backend.met, met.Offers key) :
    (∃ value, entries.get? key = some value) ∧
      (key ∈ given ∨ OrderedMap.isBehind given.head? key = true) := by
  rw [List.forall_mem_cons] at offered
  obtain ⟨⟨⟨value, stored⟩, _⟩, before⟩ := offered
  rw [hash] at stored
  exact ⟨⟨value, stored⟩, course.owes key before⟩

theorem give (course : Course map shared given .going) {room : Nat} {entries : OrderedMap}
    (hash : shared.backend.map.store = .hash room entries) {after : Simulation}
    (kept : after.store = .hash room entries) {key : Bytes} (fits : key.length = map.keySize)
    (found : entries.keyFrom? given.head? = some key) :
    Course map (shared.answering ⟨some key, false⟩ after (some (.ok key))) (key :: given)
      .going := by
  obtain ⟨behind, least⟩ := OrderedMap.keyFrom?_eq_some found
  obtain ⟨count, answered⟩ := course.answers
  refine ⟨⟨room, entries, kept⟩, rfl, ⟨count, ?_⟩, ?_, ?_, ?_⟩
  · rw [answering, answered]
    rfl
  · exact List.forall_mem_cons.2 ⟨fits, course.sized⟩
  · refine List.pairwise_cons.2 ⟨?_, course.descending⟩
    intro earlier member
    cases given with
    | nil => cases member
    | cons last others =>
        rcases List.mem_cons.1 member with rfl | further
        · exact behind
        · exact precedes_trans ((List.pairwise_cons.1 course.descending).1 _ further) behind
  · intro other offered
    obtain ⟨⟨value, stored⟩, already | ahead⟩ := course.owed hash offered
    · exact Or.inl (List.mem_cons_of_mem _ already)
    · rcases least other value stored ahead with rfl | further
      · exact Or.inl List.mem_cons_self
      · exact Or.inr further

theorem finish (course : Course map shared given .going) {room : Nat} {entries : OrderedMap}
    (hash : shared.backend.map.store = .hash room entries) {after : Simulation}
    (kept : after.store = .hash room entries)
    (ended : (∀ fault ∈ shared.backend.map.faults,
      fault.primitive = .nextKey → fault.errno ≠ .noEntry) →
        entries.keyFrom? given.head? = none) :
    Course map (shared.answering ⟨given.head?, true⟩ after none) given .ended := by
  obtain ⟨count, answered⟩ := course.answers
  refine ⟨⟨room, entries, kept⟩, rfl, ⟨0, ?_⟩, course.sized, course.descending, ?_⟩
  · rw [answering, answered]
    rfl
  · intro other offered
    obtain ⟨⟨value, stored⟩, already | ahead⟩ := course.owed hash offered
    · exact already
    · have truthful := (List.forall_mem_cons.1 offered).1.2
      have nothing := OrderedMap.keyFrom?_eq_none (ended truthful) stored
      exact absurd (nothing.symm.trans ahead) Bool.false_ne_true

theorem fail (course : Course map shared given .going) {room : Nat} {entries : OrderedMap}
    {after : Simulation} (kept : after.store = .hash room entries) (error : MapError) :
    Course map (shared.answering ⟨given.head?, true⟩ after (some (.error error))) given
      (.failed error) := by
  obtain ⟨count, answered⟩ := course.answers
  refine ⟨⟨room, entries, kept⟩, rfl, ⟨0, ?_⟩, course.sized, course.descending, fun _ _ => trivial⟩
  rw [answering, answered]
  rfl

theorem ask (course : Course map shared given .going) :
    ∃ given stage, Course map (shared.step map .next) given stage := by
  obtain ⟨room, entries, hash⟩ := course.hash
  obtain ⟨after, kept, ⟨key, stepped, fits, found⟩ | ⟨stepped, ended⟩ | ⟨error, stepped⟩⟩ :=
    course.ask_cases hash
  · rw [stepped]
    exact ⟨_, _, course.give hash kept fits found⟩
  · rw [stepped]
    exact ⟨_, _, course.finish hash kept ended⟩
  · rw [stepped]
    exact ⟨_, _, course.fail kept error⟩

theorem step (course : Course map shared given stage) (event : WalkEvent) :
    ∃ given stage, Course map (shared.step map event) given stage := by
  cases event with
  | next =>
      cases stage with
      | going => exact course.ask
      | ended => exact ⟨given, .ended, course.stay rfl⟩
      | failed error => exact ⟨given, .failed error, course.stay rfl⟩
  | call request =>
      obtain ⟨room, entries, hash⟩ := course.hash
      refine ⟨given, stage, { course with hash := ?_ }⟩
      obtain ⟨changed, written⟩ := Store.answer_hash room entries request
      rcases shared.backend.map.answer_cases request with
        ⟨errno, after, answered, kept⟩ | ⟨after, answered, kept⟩
      · exact ⟨room, entries, by simp only [SharedWalk.step, answered, kept, hash]⟩
      · exact ⟨room, changed, by simp only [SharedWalk.step, answered, kept, hash, written]⟩
  | schedule faults => exact ⟨given, stage, { course with }⟩

theorem run (course : Course map shared given stage) (events : List WalkEvent) :
    ∃ given stage, Course map (shared.run map events) given stage := by
  induction events generalizing shared given stage with
  | nil => exact ⟨given, stage, course⟩
  | cons event events ih =>
      obtain ⟨given, stage, stepped⟩ := course.step event
      exact ih stepped

end Course

namespace Course

variable {map : Descriptor} {shared : SharedWalk} {given : List Bytes} {stage : Stage}

theorem keys_eq (course : Course map shared given stage) : shared.keys = given.reverse := by
  obtain ⟨count, answered⟩ := course.answers
  have closing : (stage.closing count).filterMap givenKey? = [] :=
    List.filterMap_eq_nil_iff.2 fun _ member => Stage.givenKey?_of_mem_closing member
  have giving : (given.map fun key => (some (.ok key) : Option (Except MapError Bytes))).filterMap
      givenKey? = given := by
    rw [List.filterMap_map]
    exact List.filterMap_some
  rw [keys, answered, List.filterMap_append, closing, giving, List.nil_append]

/-- The keys are pairwise different and of one size, so that there are not more of them than such
keys. -/
theorem length_le (course : Course map shared given stage) :
    given.length ≤ wordRange map.keySize := by
  have distinct : (given.map wordValue).Nodup := by
    rw [List.Nodup, List.pairwise_map]
    refine course.descending.imp_of_mem ?_
    intro later earlier laterMem earlierMem before same
    have equal : later = earlier := by
      rw [← wordBytes_wordValue later, ← wordBytes_wordValue earlier, same,
        course.sized later laterMem, course.sized earlier earlierMem]
    rw [equal, precedes_irrefl] at before
    exact Bool.false_ne_true before
  have bounded : (given.map wordValue).toFinset ⊆ Finset.range (wordRange map.keySize) := by
    intro number member
    obtain ⟨key, given, rfl⟩ := List.mem_map.1 (List.mem_toFinset.1 member)
    rw [Finset.mem_range, ← course.sized key given]
    exact wordValue_lt key
  have counted := Finset.card_le_card bounded
  rwa [List.toFinset_card_of_nodup distinct, List.length_map, Finset.card_range] at counted

theorem isOver_iff (course : Course map shared given stage) :
    shared.IsOver ↔ shared.walk.finished = true := by
  obtain ⟨count, answered⟩ := course.answers
  rw [course.walk, IsOver, answered]
  constructor
  · rintro ⟨answer, member, none⟩
    rcases List.mem_append.1 member with closing | giving
    · cases stage with
      | going => cases closing
      | ended => rfl
      | failed error => rfl
    · obtain ⟨key, _, rfl⟩ := List.mem_map.1 giving
      cases none
  · intro ended
    cases stage with
    | going => contradiction
    | ended => exact ⟨none, by simp [Stage.closing], rfl⟩
    | failed error => exact ⟨some (.error error), by simp [Stage.closing], rfl⟩

theorem ended (course : Course map shared given stage) (normally : shared.EndedNormally) :
    stage = .ended := by
  obtain ⟨count, answered⟩ := course.answers
  obtain ⟨ended, unfailed⟩ := normally
  rw [answered] at ended unfailed
  cases stage with
  | going => simp [Stage.closing] at ended
  | ended => rfl
  | failed error => exact absurd (by simp [Stage.closing]) (unfailed error)

end Course

theorem run_of_finished (map : Descriptor) (events : List WalkEvent) (shared : SharedWalk)
    (finished : shared.walk.finished = true) :
    (shared.run map events).answers =
        List.replicate (events.countP WalkEvent.isNext) none ++ shared.answers ∧
      (shared.run map events).backend.met = shared.backend.met := by
  induction events generalizing shared with
  | nil => exact ⟨rfl, rfl⟩
  | cons event events ih =>
      cases event with
      | next =>
          have split : shared.run map (.next :: events) =
              SharedWalk.run map events { shared with answers := none :: shared.answers } := by
            rw [← step_next_of_finished map finished]
            rfl
          rw [split, List.countP_cons_of_pos rfl, List.replicate_succ', List.append_assoc]
          exact ih { shared with answers := none :: shared.answers } finished
      | call request => exact ih (shared.step map (.call request)) finished
      | schedule faults => exact ih (shared.step map (.schedule faults)) finished

theorem length_answers (map : Descriptor) (shared : SharedWalk) (events : List WalkEvent) :
    (shared.run map events).answers.length =
      shared.answers.length + events.countP WalkEvent.isNext := by
  induction events generalizing shared with
  | nil => rfl
  | cons event events ih =>
      have later := ih (shared.step map event)
      cases event with
      | next =>
          rw [List.countP_cons_of_pos rfl]
          refine later.trans ?_
          simp only [step, List.length_cons]
          omega
      | call request => exact later
      | schedule faults => exact later

end SharedWalk

/-- Others may write a hash in any way while a walk over it goes on. The walk gives its keys in
ascending order, none of them twice, and it is over when it has been asked more often than there are
keys of its size. If it then ends and does not fail, it has given every key that was there each time
it asked. Once over it gives nothing more and asks nothing of the map, whatever is done to that. -/
theorem walk_among_writers {simulation : Simulation} {room : Nat} {entries : OrderedMap}
    (hash : simulation.store = .hash room entries) (map : Descriptor) (events : List WalkEvent) :
    let shared := (SharedWalk.start simulation).run map events
    (shared.keys.Pairwise (fun earlier later => precedes earlier later = true) ∧
        shared.keys.Nodup) ∧
      (wordRange map.keySize < events.countP WalkEvent.isNext → shared.IsOver) ∧
      (shared.EndedNormally →
        ∀ key, (∀ met ∈ shared.backend.met, met.Offers key) → key ∈ shared.keys) ∧
      (shared.IsOver → ∀ later,
        (shared.run map later).answers =
            List.replicate (later.countP WalkEvent.isNext) none ++ shared.answers ∧
          (shared.run map later).backend.met = shared.backend.met) := by
  intro shared
  obtain ⟨given, stage, course⟩ := (SharedWalk.Course.start map hash).run events
  have ascending : shared.keys.Pairwise fun earlier later => precedes earlier later = true := by
    rw [course.keys_eq, List.pairwise_reverse]
    exact course.descending
  refine ⟨⟨ascending, ?_⟩, ?_, ?_, ?_⟩
  · refine ascending.imp ?_
    intro earlier later before same
    rw [same, precedes_irrefl] at before
    exact Bool.false_ne_true before
  · intro often
    rw [course.isOver_iff, course.walk]
    cases stage with
    | going =>
        -- it has only given keys so far, and there are no more of them than of that size
        obtain ⟨count, answered⟩ := course.answers
        have asked : shared.answers.length = 0 + events.countP WalkEvent.isNext :=
          SharedWalk.length_answers map (.start simulation) events
        have giving : shared.answers.length = given.length := by
          rw [answered, SharedWalk.Stage.closing, List.nil_append, List.length_map]
        have bound := course.length_le
        omega
    | ended => rfl
    | failed error => rfl
  · intro normally key offered
    obtain rfl := course.ended normally
    rw [course.keys_eq, List.mem_reverse]
    exact course.owes key offered
  · intro ended later
    exact SharedWalk.run_of_finished map later shared (course.isOver_iff.1 ended)

def bannedHosts : Descriptor where
  name := "banned"
  kind := .hash
  keySize := 1
  valueSize := 1
  capacity := 8
  fd := 3
  ownsFd := true
  cpuCount := 3
  keyCodec := .hex
  valueCodec := .hex

def threeHosts : OrderedMap :=
  ((OrderedMap.empty.insert [1] [0]).insert [3] [0]).insert [5] [0]

def busyHour : List WalkEvent :=
  [.next, .call (.delete [1]), .call (.update (some [0]) [0] 0), .next,
    .call (.update (some [4]) [0] 0), .next, .next, .next, .call (.update (some [9]) [0] 0)]

theorem busy_hour_walked :
    let shared := (SharedWalk.start (.ofStore (.hash 8 threeHosts))).run bannedHosts busyHour
    shared.keys = [[1], [3], [4], [5]] ∧ shared.EndedNormally ∧
      (∀ met ∈ shared.backend.met, met.Offers [5]) ∧ [5] ∈ shared.keys ∧
      ((shared.run bannedHosts [.next]).answers = none :: shared.answers) := by
  intro shared
  have hash : (Simulation.ofStore (.hash 8 threeHosts)).store = .hash 8 threeHosts := rfl
  obtain ⟨_, _, complete, silent⟩ := walk_among_writers hash bannedHosts busyHour
  have answers : shared.answers =
      [none, some (.ok [5]), some (.ok [4]), some (.ok [3]), some (.ok [1])] := rfl
  have normally : shared.EndedNormally := by
    simp [SharedWalk.EndedNormally, answers]
  have found : shared.backend.met.map (fun met => (met.store.taken? (some [5]), met.faults)) =
      List.replicate 5 (some [0], []) := rfl
  have offered : ∀ met ∈ shared.backend.met, met.Offers [5] := by
    intro met member
    have here : (met.store.taken? (some [5]), met.faults) ∈
        shared.backend.met.map fun met => (met.store.taken? (some [5]), met.faults) :=
      List.mem_map_of_mem member
    rw [found] at here
    obtain ⟨stored, faults⟩ := Prod.mk.inj (List.eq_of_mem_replicate here)
    exact ⟨⟨[0], stored⟩, by simp [faults]⟩
  exact ⟨rfl, normally, offered, complete normally [5] offered,
    (silent ⟨none, List.mem_cons_self, rfl⟩ [.next]).1⟩

end KernelMaps
