import KernelMaps.Map.Ordered
import Mathlib.Data.List.Nodup

/-!
What is found in an ordered map: after a change the new value under its key and the old ones under
all others, and from each key on the one that stands behind it.
-/

namespace KernelMaps

theorem find?_cons_key (other : Bytes) (head : Bytes × Bytes) (rest : List (Bytes × Bytes)) :
    ((head :: rest).find? fun entry => entry.1 == other).map Prod.snd =
      if head.1 = other then some head.2
      else (rest.find? fun entry => entry.1 == other).map Prod.snd := by
  rw [List.find?_cons]
  split
  · next here => rw [if_pos (by simpa using here), Option.map_some]
  · next elsewhere => rw [if_neg (by simpa using elsewhere)]

theorem find?_insertEntry (key value other : Bytes) (entries : List (Bytes × Bytes)) :
    ((insertEntry key value entries).find? fun entry => entry.1 == other).map Prod.snd =
      if key = other then some value
      else (entries.find? fun entry => entry.1 == other).map Prod.snd := by
  induction entries with
  | nil => rw [insertEntry, find?_cons_key]
  | cons head rest ih =>
      rw [insertEntry]
      split
      · rw [find?_cons_key]
      · split
        · next replaced =>
            rw [find?_cons_key, find?_cons_key, ← replaced]
            split <;> rfl
        · next differs =>
            rw [find?_cons_key, find?_cons_key, ih]
            split
            · next here => rw [if_neg fun same => differs (same.trans here.symm)]
            · rfl

namespace OrderedMap

variable (map : OrderedMap)

theorem get?_insert (key value other : Bytes) :
    (map.insert key value).get? other = if key = other then some value else map.get? other :=
  find?_insertEntry key value other map.entries

theorem get?_erase (key other : Bytes) :
    (map.erase key).get? other = if key = other then none else map.get? other := by
  rw [get?, get?, erase, List.find?_filter]
  split
  · next same =>
      rw [← same, Option.map_eq_none_iff, List.find?_eq_none]
      simp
  · next differs =>
      congr 2
      funext entry
      by_cases here : entry.1 = other
      · simp [here, Ne.symm differs]
      · simp [here]

theorem nodup_keys : (map.entries.map Prod.fst).Nodup := by
  rw [List.Nodup, List.pairwise_map]
  refine map.ascending.imp ?_
  intro first second before same
  rw [same, precedes_irrefl] at before
  exact Bool.false_ne_true before

variable {map}

theorem get?_eq_some_iff {key value : Bytes} :
    map.get? key = some value ↔ (key, value) ∈ map.entries := by
  rw [get?, Option.map_eq_some_iff]
  constructor
  · rintro ⟨entry, found, rfl⟩
    have here := List.find?_some found
    rw [beq_iff_eq] at here
    rw [← here]
    exact List.mem_of_find?_eq_some found
  · intro member
    refine ⟨(key, value), ?_, rfl⟩
    have present : ((map.entries.find? fun entry => entry.1 == key)).isSome := by
      rw [List.find?_isSome]
      exact ⟨(key, value), member, beq_self_eq_true key⟩
    obtain ⟨entry, found⟩ := Option.isSome_iff_exists.1 present
    have here := List.find?_some found
    rw [beq_iff_eq] at here
    rw [found, Option.some.injEq]
    exact List.inj_on_of_nodup_map map.nodup_keys (List.mem_of_find?_eq_some found) member here

theorem mem_insert {key value : Bytes} {entry : Bytes × Bytes}
    (member : entry ∈ (map.insert key value).entries) :
    entry = (key, value) ∨ entry ∈ map.entries :=
  mem_insertEntry member

theorem mem_erase {key : Bytes} {entry : Bytes × Bytes}
    (member : entry ∈ (map.erase key).entries) : entry ∈ map.entries :=
  List.mem_of_mem_filter member

/-- The key that a walk is given at a position: the first one, or the one behind another. -/
def keyFrom? (map : OrderedMap) : Option Bytes → Option Bytes
  | none => map.firstKey?
  | some key => map.keyAfter? key

theorem keyAfter?_of_split {front rest : List (Bytes × Bytes)} {entry : Bytes × Bytes}
    (split : map.entries = front ++ entry :: rest) :
    map.keyAfter? entry.1 = rest.head?.map Prod.fst := by
  have ascending := map.ascending
  rw [split] at ascending
  obtain ⟨_, behind, below⟩ := List.pairwise_append.1 ascending
  obtain ⟨above, _⟩ := List.pairwise_cons.1 behind
  have passed : ∀ other ∈ front, ¬precedes entry.1 other.1 = true := by
    intro other member after
    have back := precedes_trans after (below other member entry List.mem_cons_self)
    rw [precedes_irrefl] at back
    exact Bool.false_ne_true back
  rw [keyAfter?, split, List.find?_append, List.find?_eq_none.2 passed, Option.none_or,
    List.find?_cons_of_neg (by simp [precedes_irrefl])]
  cases rest with
  | nil => rfl
  | cons next others =>
      rw [List.find?_cons, above next List.mem_cons_self]
      rfl

end OrderedMap

end KernelMaps
