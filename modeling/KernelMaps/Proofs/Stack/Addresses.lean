import KernelMaps.Proofs.Stack.Caches
import KernelMaps.Proofs.Stack.Frames

/-!
Stacks of addresses. A stored stack is as many words as its map has room for and zeros behind them,
its addresses are the words in front of the first zero, and these are what is named.
-/

namespace KernelMaps

structure DecodesWords (depth : Nat) (value : Bytes) (words : List UInt64) : Prop where
  length : words.length = 127
  word : ∀ index < depth,
    (words[index]?).map UInt64.toNat = some (wordValue ((value.drop (index * 8)).take 8))
  zero : ∀ index, depth ≤ index → index < 127 → words[index]? = some 0

def wordsIn (depth : Nat) (value : Bytes) : List UInt64 :=
  (slots depth 8 value).map Element.decode

theorem wordsIn_length (depth : Nat) (value : Bytes) : (wordsIn depth value).length = depth := by
  rw [wordsIn, List.length_map, slots_length]

theorem framesOf_words {depth : Nat} (bounded : depth ≤ maxStackDepth) {value : Bytes}
    (exact : value.length = depth * 8) :
    framesOf UInt64 0 value = wordsIn depth value ++ List.replicate (maxStackDepth - depth) 0 :=
  framesOf_of_length (α := UInt64) (by decide) bounded exact

theorem toNat_decode {bytes : Bytes} (exact : bytes.length = 8) :
    (Element.decode bytes : UInt64).toNat = wordValue bytes := by
  have bound := wordValue_lt bytes
  rw [exact] at bound
  exact UInt64.toNat_ofNat_of_lt' bound

theorem decodesWords_framesOf {depth : Nat} (bounded : depth ≤ maxStackDepth) {value : Bytes}
    (exact : value.length = depth * 8) : DecodesWords depth value (framesOf UInt64 0 value) := by
  have count := wordsIn_length depth value
  rw [framesOf_words bounded exact]
  refine ⟨?_, ?_, ?_⟩
  · rw [List.length_append, count, List.length_replicate, maxStackDepth]
    exact Nat.add_sub_of_le bounded
  · intro index below
    have whole : ((value.drop (index * 8)).take 8).length = 8 := by
      rw [List.length_take, List.length_drop, exact]
      omega
    rw [List.getElem?_append_left (by omega), wordsIn, List.getElem?_map, getElem?_slots below,
      Option.map_some, Option.map_some, toNat_decode whole]
  · intro index behind within
    rw [List.getElem?_append_right (by omega), List.getElem?_replicate, if_pos]
    rw [count, maxStackDepth]
    omega

theorem untilZero_framesOf {depth : Nat} (bounded : depth ≤ maxStackDepth) {value : Bytes}
    (exact : value.length = depth * 8) :
    LongestFront (· ≠ 0) ((framesOf UInt64 0 value).take depth)
      (untilZero (framesOf UInt64 0 value)) := by
  rw [framesOf_words bounded exact, List.take_left' (wordsIn_length ..), untilZero,
    takeWhile_append_replicate (by rfl)]
  exact longestFront_takeWhile (by simp) _

namespace StackTable

variable {σ χ β : Type} [Backend β]

/-- What naming addresses for a process comes to. Its cache is asked for them in turn and for
nothing else, which gives a text for each of them; without addresses everything stays as it was. -/
structure Named (symbolizer : Symbolizer σ χ) (table : StackTable σ χ) (pid : Pid)
    (addresses : List UInt64) (names : List String) (named : StackTable σ χ) : Prop where
  resolves : ∃ last, Resolves symbolizer.resolve (table.cacheFor symbolizer pid.normalized)
    addresses names last ∧ (addresses ≠ [] → named.caches.find? pid.normalized = some last)
  events : named.events = (table.naming pid.normalized addresses).reverse ++ table.events
  untouched : addresses = [] → named = table

theorem named_name (table : StackTable σ χ) (symbolizer : Symbolizer σ χ) (pid : Pid)
    (addresses : List UInt64) :
    ∃ names named lines, table.name symbolizer pid addresses = (names, named, lines) ∧
      Named symbolizer table pid addresses names named := by
  by_cases empty : addresses = []
  · subst empty
    exact ⟨[], table, [], rfl, ⟨_, .nil _, fun filled => absurd rfl filled⟩, rfl, fun _ => rfl⟩
  · obtain ⟨lines, same⟩ := name_of_ne_nil empty table symbolizer pid
    refine ⟨_, _, lines, same, ⟨_, resolves_resolveEach .., ?_⟩, rfl, ?_⟩
    · intro _
      rw [SymbolCaches.find?_insert, if_pos rfl]
    · exact fun none => absurd none empty

/-- What the three ways to read a stack come to that was found, or was not there. -/
structure Reads (symbolizer : Symbolizer σ χ) (table : StackTable σ χ) (pid : Pid) (backend : β)
    (id : StackId) (stored : Option (List UInt64)) (found : List UInt64) (after : β) : Prop where
  raw : Backend.run backend (table.raw id) = (.ok stored, after)
  addresses : Backend.run backend (table.addresses id) = (.ok found, after)
  symbols : ∃ names named lines,
    Backend.run backend (table.symbols symbolizer id pid) = (.ok (names, named, lines), after) ∧
      Named symbolizer table pid found names named

structure Fails (symbolizer : Symbolizer σ χ) (table : StackTable σ χ) (pid : Pid) (backend : β)
    (id : StackId) (error : MapError) (after : β) : Prop where
  raw : Backend.run backend (table.raw id) = (.error error, after)
  addresses : Backend.run backend (table.addresses id) = (.error error, after)
  symbols : Backend.run backend (table.symbols symbolizer id pid) = (.error error, after)

variable {symbolizer : Symbolizer σ χ} {table : StackTable σ χ} {pid : Pid} {backend after : β}
  {id : StackId}

theorem reads_of_raw {stored : Option (List UInt64)}
    (ran : Backend.run backend (table.raw id) = (.ok stored, after)) :
    Reads symbolizer table pid backend id stored (stored.elim [] untilZero) after := by
  have found : Backend.run backend (table.addresses id) =
      (.ok (stored.elim [] untilZero), after) := by
    rw [addresses, Backend.run_bind, ran]
    cases stored <;> rfl
  obtain ⟨names, named, lines, same, naming⟩ :=
    table.named_name symbolizer pid (stored.elim [] untilZero)
  refine ⟨ran, found, names, named, lines, ?_, naming⟩
  rw [run_symbols, found]
  simp only [same]

theorem fails_of_raw {error : MapError}
    (ran : Backend.run backend (table.raw id) = (.error error, after)) :
    Fails symbolizer table pid backend id error after := by
  have refused : Backend.run backend (table.addresses id) = (.error error, after) := by
    rw [addresses, Backend.run_bind, ran]
  refine ⟨ran, refused, ?_⟩
  rw [run_symbols, refused]

end StackTable

/-- A stack is read as the words of its value and zeros behind them. Its addresses are the longest
front of the words without a zero, and they are what its process's cache is asked to name, in their
order. A number that is no key, or has no entry, has no addresses and is no failure. -/
theorem stack_ends_at_first_zero {σ χ β : Type} [Backend β] {table : StackTable σ χ} {depth : Nat}
    (holds : table.map.HoldsFrames 8 depth) (symbolizer : Symbolizer σ χ) (pid : Pid)
    (backend after : β) (id : StackId) :
    (∀ value, table.map.Finds backend id (.ok (some value)) after →
      ∃ words addresses, DecodesWords depth value words ∧
        LongestFront (· ≠ 0) (words.take depth) addresses ∧
        table.Reads symbolizer pid backend id (some words) addresses after) ∧
    (table.map.Finds backend id (.ok none) after →
      table.Reads symbolizer pid backend id none [] after) ∧
    ∀ error, table.map.Finds backend id (.error error) after →
      table.Fails symbolizer pid backend id error after := by
  have raw {found : Except MapError (Option Bytes)}
      (finds : table.map.Finds backend id found after) :
      Backend.run backend (table.raw id) =
        (found.map (Option.map (framesOf UInt64 0)), after) :=
    finds.run_storedFrames holds
  refine ⟨?_, ?_, ?_⟩
  · intro value finds
    have exact : value.length = depth * 8 := finds.length_eq.trans holds.valueSize
    exact ⟨_, _, decodesWords_framesOf holds.bounded exact, untilZero_framesOf holds.bounded exact,
      StackTable.reads_of_raw (raw finds)⟩
  · intro finds
    exact StackTable.reads_of_raw (raw finds)
  · intro error finds
    exact StackTable.fails_of_raw (raw finds)

def shallowTraces : Descriptor :=
  { traceMap with valueSize := 32 }

def brokenTrace : Bytes :=
  [64, 0, 0, 0, 0, 0, 0, 0, 65, 1, 0, 0, 0, 0, 0, 0] ++ zeroed 8 ++ [99, 0, 0, 0, 0, 0, 0, 0]

def brokenTraces : Simulation :=
  .ofStore (.hash 8 (OrderedMap.empty.insert [3, 0, 0, 0] brokenTrace))

theorem broken_trace_named_until_zero :
    ∃ table : StackTable Nat Nat,
      StackTable.ofMap shallowTraces ⟨true, false⟩ countingSymbolizer = .ok table ∧
      table.map.HoldsFrames 8 4 ∧
      (∃ words after, DecodesWords 4 brokenTrace words ∧
        LongestFront (· ≠ 0) (words.take 4) [64, 321] ∧
        table.Reads countingSymbolizer ⟨5⟩ brokenTraces ⟨3⟩ (some words) [64, 321] after) ∧
      table.Reads countingSymbolizer ⟨5⟩ brokenTraces ⟨-14⟩ none [] brokenTraces ∧
      table.Reads countingSymbolizer ⟨5⟩ brokenTraces ⟨2 ^ 32 + 3⟩ none [] brokenTraces := by
  obtain ⟨table, made, sameMap⟩ : ∃ table : StackTable Nat Nat,
      StackTable.ofMap shallowTraces ⟨true, false⟩ countingSymbolizer = .ok table ∧
        table.map = shallowTraces := ⟨_, rfl, rfl⟩
  have holds : table.map.HoldsFrames 8 4 := by
    rw [sameMap]
    exact ⟨by decide, rfl, by decide, by decide, rfl⟩
  obtain ⟨after, stored⟩ : ∃ after,
      table.map.Finds brokenTraces ⟨3⟩ (.ok (some brokenTrace)) after := by
    rw [sameMap]
    exact ⟨_, .stored (by decide) rfl rfl⟩
  obtain ⟨words, addresses, decodes, longest, reads⟩ :=
    (stack_ends_at_first_zero holds countingSymbolizer ⟨5⟩ brokenTraces after ⟨3⟩).1 _ stored
  have found : (Backend.run brokenTraces (table.addresses ⟨3⟩)).1 = .ok [64, 321] := by
    rw [StackTable.addresses, StackTable.raw, sameMap]
    rfl
  rw [reads.addresses] at found
  obtain rfl := Except.ok.inj found
  have absent (number : Int64) (outside : ¬(StackId.mk number).IsKey) :
      table.Reads countingSymbolizer ⟨5⟩ brokenTraces ⟨number⟩ none [] brokenTraces :=
    (stack_ends_at_first_zero holds countingSymbolizer ⟨5⟩ brokenTraces brokenTraces ⟨number⟩).2.1
      (.unnumbered outside)
  exact ⟨table, made, holds, ⟨words, _, decodes, longest, reads⟩, absent _ (by decide),
    absent _ (by decide)⟩

end KernelMaps
