import KernelMaps.Proofs.Map.Sizes
import KernelMaps.Proofs.Map.Slots
import KernelMaps.Stack.Trace
import Mathlib.Data.List.TakeWhile

/-!
What is stored under the number of a stack, and which frames it is read as. A number that is no key
and a key without an entry stand for no stack; neither is a failure.
-/

namespace KernelMaps

/-- The longest front of a list that has nothing in it without a property. -/
structure LongestFront {α : Type} (property : α → Prop) (whole front : List α) : Prop where
  isFront : front <+: whole
  every : ∀ value ∈ front, property value
  longest : ∀ other, other <+: whole → (∀ value ∈ other, property value) → other <+: front

theorem longestFront_takeWhile {α : Type} {property : α → Prop} {keep : α → Bool}
    (same : ∀ value, keep value = true ↔ property value) (whole : List α) :
    LongestFront property whole (whole.takeWhile keep) := by
  refine ⟨List.takeWhile_prefix keep, ?_, ?_⟩
  · intro value member
    exact (same value).1 (List.mem_takeWhile_imp member)
  · induction whole with
    | nil => exact fun other front _ => front
    | cons first rest ih =>
        intro other front every
        cases other with
        | nil => exact List.nil_prefix
        | cons value others =>
            obtain ⟨rfl, behind⟩ := List.cons_prefix_cons.1 front
            rw [List.forall_mem_cons] at every
            rw [List.takeWhile_cons_of_pos ((same value).2 every.1), List.cons_prefix_cons]
            exact ⟨rfl, ih others behind every.2⟩

theorem LongestFront.before {α : Type} {property : α → Prop} {whole front before rest : List α}
    {value : α} (longest : LongestFront property whole front)
    (split : whole = before ++ value :: rest) (lacks : ¬property value) : front <+: before := by
  obtain ⟨behind, same⟩ := longest.isFront
  rw [split] at same
  rcases List.append_eq_append_iff.1 same with ⟨middle, rfl, -⟩ | ⟨middle, inside, next⟩
  · exact List.prefix_append ..
  · cases middle with
    | nil =>
        rw [List.append_nil] at inside
        exact inside ▸ List.prefix_refl _
    | cons first others =>
        obtain ⟨rfl, -⟩ := List.cons.inj next
        exact absurd (longest.every value (by simp [inside])) lacks

theorem takeWhile_append_replicate {α : Type} {keep : α → Bool} {value : α}
    (dropped : keep value = false) (front : List α) (count : Nat) :
    (front ++ List.replicate count value).takeWhile keep = front.takeWhile keep := by
  rw [List.takeWhile_append]
  split
  · next all =>
      have none : (List.replicate count value).takeWhile keep = [] := by
        cases count <;> simp [List.replicate_succ, dropped]
      rw [none, List.append_nil]
      exact (List.takeWhile_prefix keep).eq_of_length all |>.symm
  · rfl

/-- What is answered for subjects in turn, and what has become of the one that answers then. -/
inductive Resolves {σ α : Type} (resolve : σ → α → Option String × σ) :
    σ → List α → List String → σ → Prop where
  | nil (state : σ) : Resolves resolve state [] [] state
  | known {state next last : σ} {subject : α} {subjects : List α} {name : String}
      {names : List String} (answered : resolve state subject = (some name, next))
      (others : Resolves resolve next subjects names last) :
      Resolves resolve state (subject :: subjects) (name :: names) last
  | unknown {state next last : σ} {subject : α} {subjects : List α} {names : List String}
      (answered : resolve state subject = (none, next))
      (others : Resolves resolve next subjects names last) :
      Resolves resolve state (subject :: subjects) ("[UNKNOWN]" :: names) last

theorem resolves_resolveEach {σ α : Type} (resolve : σ → α → Option String × σ) (state : σ)
    (subjects : List α) :
    Resolves resolve state subjects (resolveEach resolve state subjects).1
      (resolveEach resolve state subjects).2 := by
  induction subjects generalizing state with
  | nil => exact .nil state
  | cons subject rest ih =>
      rcases answered : resolve state subject with ⟨_ | name, next⟩
      · simp only [resolveEach, answered, Option.getD_none]
        exact .unknown answered (ih next)
      · simp only [resolveEach, answered, Option.getD_some]
        exact .known answered (ih next)

def StackId.IsKey (id : StackId) : Prop :=
  0 ≤ id.number.toInt ∧ id.number.toInt < 0x100000000

instance (id : StackId) : Decidable id.IsKey :=
  inferInstanceAs (Decidable (_ ∧ _))

namespace Descriptor

structure HoldsFrames (map : Descriptor) (frameSize depth : Nat) : Prop where
  kind : map.kind ∈ Family.stackTrace.kinds
  keySize : map.keySize = 4
  filled : 1 ≤ depth
  bounded : depth ≤ maxStackDepth
  valueSize : map.valueSize = depth * frameSize

theorem checkFrames_eq_ok {map : Descriptor} {frameSize : Nat} (positive : 0 < frameSize)
    {result : Unit} :
    map.checkFrames frameSize = .ok result ↔ ∃ depth, map.HoldsFrames frameSize depth := by
  simp only [checkFrames, bind_eq_ok, checkFamily_eq_ok, checkSize_eq_ok, exists_and_left,
    exists_const]
  by_cases refused : map.valueSize = 0 ∨ map.valueSize % frameSize ≠ 0 ∨
      maxStackDepth * frameSize < map.valueSize
  · simp only [refused, if_true]
    constructor
    · rintro ⟨-, -, thrown⟩
      contradiction
    · rintro ⟨depth, -, -, filled, bounded, values⟩
      have positiveSize := Nat.mul_pos filled positive
      have most := Nat.mul_le_mul_right frameSize bounded
      rw [values, Nat.mul_mod_left] at refused
      omega
  · simp only [refused, if_false]
    obtain ⟨depth, values⟩ := Nat.dvd_of_mod_eq_zero (show map.valueSize % frameSize = 0 by omega)
    rw [Nat.mul_comm] at values
    rw [values] at refused
    constructor
    · rintro ⟨kind, keys, -⟩
      refine ⟨depth, kind, keys, ?_, ?_, values⟩
      · rw [Nat.one_le_iff_ne_zero]
        rintro rfl
        simp at refused
      · exact Nat.le_of_mul_le_mul_right (by omega) positive
    · rintro ⟨_, kind, keys, -⟩
      exact ⟨kind, keys, rfl⟩

variable {map : Descriptor} {frameSize depth : Nat}

theorem HoldsFrames.keyed (holds : map.HoldsFrames frameSize depth) :
    map.kind.isKeyless = false := by
  have plain : ∀ kind ∈ Family.stackTrace.kinds, kind.isKeyless = false := by decide
  exact plain _ holds.kind

theorem HoldsFrames.keyArgument (holds : map.HoldsFrames frameSize depth) {key : Bytes}
    (sized : key.length = 4) : map.keyArgument key = .ok (some key) :=
  keyArgument_of_keyed holds.keyed (sized.trans holds.keySize.symm)

theorem HoldsFrames.bufferSize (holds : map.HoldsFrames frameSize depth) :
    map.bufferSize = map.valueSize := by
  have single : ∀ kind ∈ Family.stackTrace.kinds, kind.isPerCpu = false := by decide
  exact bufferSize_of_single (single _ holds.kind)

def stackRequest (map : Descriptor) (id : StackId) : Request :=
  .lookup (some (wordBytes 4 id.number.toInt.toNat)) map.valueSize

/-- What a map that is asked by the number of a stack has for it. A number that is no key is not
asked for, and one without an entry has nothing; any other failure is handed on. -/
inductive Finds {β : Type} [Backend β] (map : Descriptor) (backend : β) (id : StackId) :
    Except MapError (Option Bytes) → β → Prop where
  | unnumbered (outside : ¬id.IsKey) : Finds map backend id (.ok none) backend
  | missing {after : β} (inside : id.IsKey)
      (replied : Backend.answer (map.stackRequest id) backend = (.error .noEntry, after)) :
      Finds map backend id (.ok none) after
  | failed {after : β} {errno : Errno} (inside : id.IsKey) (present : errno ≠ .noEntry)
      (replied : Backend.answer (map.stackRequest id) backend = (.error errno, after)) :
      Finds map backend id (.error (.call .gettingValue (.system errno))) after
  | stored {after : β} {value : Bytes} (inside : id.IsKey) (fills : value.length = map.valueSize)
      (replied : Backend.answer (map.stackRequest id) backend = (.ok value, after)) :
      Finds map backend id (.ok (some value)) after

theorem Finds.length_eq {β : Type} [Backend β] {backend after : β} {id : StackId} {value : Bytes}
    (finds : map.Finds backend id (.ok (some value)) after) : value.length = map.valueSize := by
  cases finds with
  | stored inside fills replied => exact fills

end Descriptor

theorem StackId.exists_key {id : StackId} (inside : id.IsKey) :
    ∃ key, id.key? = some key ∧ Element.encode key = wordBytes 4 id.number.toInt.toNat := by
  refine ⟨UInt32.ofNat id.number.toInt.toNat, if_pos inside, ?_⟩
  obtain ⟨lower, upper⟩ := inside
  have word : (UInt32.ofNat id.number.toInt.toNat).toNat = id.number.toInt.toNat := by
    rw [UInt32.toNat_ofNat']
    omega
  exact congrArg (wordBytes 4) word

theorem Backend.run_lookup {β : Type} [Backend β] (backend : β) {map : Descriptor} {key : Bytes}
    {sent : Option Bytes} (accepted : map.keyArgument key = .ok sent) :
    Backend.run backend (map.lookup key) =
      let (reply, after) := Backend.answer (.lookup sent map.bufferSize) backend
      (Descriptor.handedOut .gettingValue map.bufferSize reply, after) := by
  rw [Descriptor.lookup, accepted]
  rfl

section

variable {α β : Type} [Element α] [Backend β] {empty : α} {map : Descriptor} {depth : Nat}

theorem Descriptor.HoldsFrames.run_storedFrames {frameSize : Nat}
    (holds : map.HoldsFrames frameSize depth) {backend after : β} {id : StackId} {reply : Reply}
    (inside : id.IsKey)
    (replied : Backend.answer (map.stackRequest id) backend = (reply, after)) :
    Backend.run backend (storedFrames α empty map id) =
      ((handedOut .gettingValue map.valueSize reply).map (Option.map (framesOf α empty)),
        after) := by
  obtain ⟨key, isKey, encoded⟩ := StackId.exists_key inside
  have sized : (Element.encode key).length = 4 := Element.encode_length key
  have looked := Backend.run_lookup backend (holds.keyArgument sized)
  rw [stackRequest, ← encoded] at replied
  rw [holds.bufferSize, replied] at looked
  rw [storedFrames, isKey]
  simp only [Backend.run_bind, looked]
  cases handedOut .gettingValue map.valueSize reply <;> rfl

theorem Descriptor.Finds.run_storedFrames {frameSize : Nat}
    (holds : map.HoldsFrames frameSize depth) {backend after : β} {id : StackId}
    {found : Except MapError (Option Bytes)}
    (finds : map.Finds backend id found after) :
    Backend.run backend (storedFrames α empty map id) =
      (found.map (Option.map (framesOf α empty)), after) := by
  cases finds with
  | unnumbered outside =>
      have none : id.key? = none := if_neg outside
      rw [storedFrames, none]
      rfl
  | missing inside replied => exact holds.run_storedFrames inside replied
  | failed inside present replied =>
      rw [holds.run_storedFrames inside replied, handedOut, if_neg present]
  | stored inside fills replied =>
      rw [holds.run_storedFrames inside replied, handedOut, fitted_of_length _ _ fills]

theorem framesOf_of_length {bytes : Bytes} (positive : 0 < Element.size α)
    (bounded : depth ≤ maxStackDepth) (exact : bytes.length = depth * Element.size α) :
    framesOf α empty bytes = (slots depth (Element.size α) bytes).map Element.decode ++
      List.replicate (maxStackDepth - depth) empty := by
  have count : bytes.length / Element.size α = depth := by
    rw [exact, Nat.mul_div_cancel _ positive]
  simp only [framesOf, count, List.length_map, slots_length]
  rw [List.take_of_length_le (by rwa [List.length_map, slots_length])]

end

end KernelMaps
