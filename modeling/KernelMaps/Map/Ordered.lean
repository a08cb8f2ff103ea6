import KernelMaps.Bytes

/-!
Finite maps from byte strings to byte strings, kept in the unsigned lexicographic order of the
keys. The order is total and strict, and both changes keep the entries ascending.
-/

namespace KernelMaps

/-- The unsigned lexicographic order; a proper beginning comes before its continuations. -/
def precedes : Bytes → Bytes → Bool
  | _, [] => false
  | [], _ :: _ => true
  | left :: lefts, right :: rights =>
      left.toNat < right.toNat || (left == right && precedes lefts rights)

theorem precedes_irrefl (key : Bytes) : precedes key key = false := by
  induction key with
  | nil => rfl
  | cons byte rest ih => simp [precedes, ih]

theorem precedes_trans {first second third : Bytes} (lower : precedes first second = true)
    (upper : precedes second third = true) : precedes first third = true := by
  induction first generalizing second third with
  | nil =>
      cases third with
      | nil => simp [precedes] at upper
      | cons => rfl
  | cons left lefts ih =>
      cases second with
      | nil => simp [precedes] at lower
      | cons middle middles =>
          cases third with
          | nil => simp [precedes] at upper
          | cons right rights =>
              simp only [precedes, Bool.or_eq_true, Bool.and_eq_true, decide_eq_true_eq,
                beq_iff_eq] at lower upper ⊢
              rcases lower with lower | ⟨rfl, lower⟩
              · rcases upper with upper | ⟨rfl, upper⟩
                · exact Or.inl (Nat.lt_trans lower upper)
                · exact Or.inl lower
              · rcases upper with upper | ⟨rfl, upper⟩
                · exact Or.inl upper
                · exact Or.inr ⟨rfl, ih lower upper⟩

theorem precedes_or_eq_or_precedes (left right : Bytes) :
    precedes left right = true ∨ left = right ∨ precedes right left = true := by
  induction left generalizing right with
  | nil => cases right with
      | nil => exact Or.inr (Or.inl rfl)
      | cons => exact Or.inl rfl
  | cons byte rest ih =>
      cases right with
      | nil => exact Or.inr (Or.inr rfl)
      | cons other others =>
          simp only [precedes, Bool.or_eq_true, Bool.and_eq_true, decide_eq_true_eq, beq_iff_eq]
          rcases Nat.lt_trichotomy byte.toNat other.toNat with below | same | above
          · exact Or.inl (Or.inl below)
          · have same := UInt8.toNat_inj.1 same
            subst same
            rcases ih others with below | rfl | above
            · exact Or.inl (Or.inr ⟨rfl, below⟩)
            · exact Or.inr (Or.inl rfl)
            · exact Or.inr (Or.inr (Or.inr ⟨rfl, above⟩))
          · exact Or.inr (Or.inr (Or.inl above))

def Ascending (entries : List (Bytes × Bytes)) : Prop :=
  entries.Pairwise fun first second => precedes first.1 second.1 = true

def insertEntry (key value : Bytes) : List (Bytes × Bytes) → List (Bytes × Bytes)
  | [] => [(key, value)]
  | entry :: rest =>
      if precedes key entry.1 then (key, value) :: entry :: rest
      else if key = entry.1 then (key, value) :: rest
      else entry :: insertEntry key value rest

theorem mem_insertEntry {key value : Bytes} {entries : List (Bytes × Bytes)}
    {entry : Bytes × Bytes} (member : entry ∈ insertEntry key value entries) :
    entry = (key, value) ∨ entry ∈ entries := by
  induction entries with
  | nil => simpa [insertEntry] using member
  | cons head rest ih =>
      simp only [insertEntry] at member
      split at member
      · simpa using member
      · split at member
        · rcases List.mem_cons.1 member with same | later
          · exact Or.inl same
          · exact Or.inr (List.mem_cons_of_mem _ later)
        · rcases List.mem_cons.1 member with same | later
          · exact Or.inr (same ▸ List.mem_cons_self)
          · exact (ih later).imp_right (List.mem_cons_of_mem _)

theorem ascending_insertEntry (key value : Bytes) {entries : List (Bytes × Bytes)}
    (ascending : Ascending entries) : Ascending (insertEntry key value entries) := by
  induction entries with
  | nil => exact List.pairwise_singleton _ _
  | cons head rest ih =>
      have ⟨front, tail⟩ := List.pairwise_cons.1 ascending
      simp only [insertEntry]
      split
      · next before =>
          refine List.pairwise_cons.2 ⟨?_, ascending⟩
          intro entry member
          rcases List.mem_cons.1 member with rfl | later
          · exact before
          · exact precedes_trans before (front entry later)
      · next notBefore =>
          split
          · next same => exact List.pairwise_cons.2 ⟨fun entry later => same ▸ front entry later, tail⟩
          · next differs =>
              refine List.pairwise_cons.2 ⟨?_, ih tail⟩
              intro entry member
              rcases mem_insertEntry member with rfl | later
              · rcases precedes_or_eq_or_precedes key head.1 with before | same | after
                · exact absurd before notBefore
                · exact absurd same differs
                · exact after
              · exact front entry later

structure OrderedMap where
  entries : List (Bytes × Bytes)
  ascending : Ascending entries

namespace OrderedMap

def empty : OrderedMap := ⟨[], List.Pairwise.nil⟩

def size (map : OrderedMap) : Nat := map.entries.length

def get? (map : OrderedMap) (key : Bytes) : Option Bytes :=
  (map.entries.find? fun entry => entry.1 == key).map Prod.snd

def insert (map : OrderedMap) (key value : Bytes) : OrderedMap :=
  ⟨insertEntry key value map.entries, ascending_insertEntry key value map.ascending⟩

def erase (map : OrderedMap) (key : Bytes) : OrderedMap :=
  ⟨map.entries.filter fun entry => !(entry.1 == key), List.Pairwise.filter _ map.ascending⟩

def firstKey? (map : OrderedMap) : Option Bytes :=
  map.entries.head?.map Prod.fst

/-- The smallest key above another one, which need not be present. -/
def keyAfter? (map : OrderedMap) (key : Bytes) : Option Bytes :=
  (map.entries.find? fun entry => precedes key entry.1).map Prod.fst

end OrderedMap

end KernelMaps
