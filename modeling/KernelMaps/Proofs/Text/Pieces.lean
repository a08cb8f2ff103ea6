import KernelMaps.Proofs.Text.Plain

/-!
Texts cut at a mark. Cutting at all marks leaves pieces that have none and join to the text again,
and cutting at the first one leaves a front that has none.
-/

namespace KernelMaps.Text

variable {mark : Char} {text : List Char}

/-- The pieces that a text has around all marks in it. A text without a mark is one piece. -/
def Cut (mark : Char) (pieces : List (List Char)) (text : List Char) : Prop :=
  pieces ≠ [] ∧ (∀ piece ∈ pieces, mark ∉ piece) ∧ text = [mark].intercalate pieces

theorem splitAll_eq_splitOn (mark : Char) (text : List Char) :
    splitAll mark text = text.splitOn mark := by
  induction text with
  | nil => rfl
  | cons char rest ih =>
      obtain ⟨first, others, split, -, -⟩ := splitAll_pieces mark rest
      rw [splitAll, List.splitOn_cons_eq_if_modifyHead, ← ih, split]
      by_cases here : char = mark
      · simp [here]
      · simp [here]

theorem not_mem_of_mem_splitAll {piece : List Char} (member : piece ∈ splitAll mark text) :
    mark ∉ piece := by
  induction text generalizing piece with
  | nil =>
      rw [splitAll, List.mem_singleton] at member
      simp [member]
  | cons char rest ih =>
      obtain ⟨first, others, split, -, -⟩ := splitAll_pieces mark rest
      rw [split] at ih
      simp only [splitAll, split] at member
      by_cases here : char = mark
      · rw [if_pos here, List.mem_cons] at member
        rcases member with rfl | later
        · exact List.not_mem_nil
        · exact ih later
      · rw [if_neg here, List.mem_cons] at member
        rcases member with rfl | later
        · have behind := ih List.mem_cons_self
          simp [behind, Ne.symm here]
        · exact ih (List.mem_cons_of_mem first later)

theorem splitAll_eq_iff {pieces : List (List Char)} :
    splitAll mark text = pieces ↔ Cut mark pieces text := by
  constructor
  · rintro rfl
    refine ⟨?_, fun _ => not_mem_of_mem_splitAll, ?_⟩
    · rw [splitAll_eq_splitOn]
      exact List.splitOn_ne_nil mark text
    · rw [splitAll_eq_splitOn, List.intercalate_splitOn]
  · rintro ⟨filled, unmarked, rfl⟩
    rw [splitAll_eq_splitOn, List.splitOn_intercalate mark unmarked filled]

theorem solid_intercalate {pieces : List (List Char)} (apart : isBlank mark = false)
    (solid : ∀ piece ∈ pieces, Solid piece) : Solid ([mark].intercalate pieces) := by
  induction pieces with
  | nil => exact List.forall_mem_nil _
  | cons piece rest ih =>
      rw [List.forall_mem_cons] at solid
      cases rest with
      | nil =>
          rw [List.intercalate_singleton]
          exact solid.1
      | cons next behind =>
          rw [List.intercalate_cons_cons, List.append_assoc]
          exact List.forall_mem_append.2 ⟨solid.1, solid_cons.2 ⟨apart, ih solid.2⟩⟩

theorem splitFirst_eq_none_iff : splitFirst mark text = none ↔ mark ∉ text := by
  induction text with
  | nil => simp [splitFirst]
  | cons char rest ih =>
      by_cases here : char = mark
      · simp [splitFirst, here]
      · simp [splitFirst, here, Ne.symm here, ih]

theorem splitFirst_append {before : List Char} (unmarked : mark ∉ before) (after : List Char) :
    splitFirst mark (before ++ mark :: after) = some (before, after) := by
  induction before with
  | nil => simp [splitFirst]
  | cons char rest ih =>
      rw [List.mem_cons, not_or] at unmarked
      simp [splitFirst, Ne.symm unmarked.1, ih unmarked.2]

theorem splitFirst_eq_some_iff {before after : List Char} :
    splitFirst mark text = some (before, after) ↔
      mark ∉ before ∧ text = before ++ mark :: after := by
  constructor
  · intro split
    induction text generalizing before with
    | nil => simp [splitFirst] at split
    | cons char rest ih =>
        by_cases here : char = mark
        · simp only [splitFirst, here, if_true, Option.some.injEq, Prod.mk.injEq] at split
          obtain ⟨rfl, rfl⟩ := split
          exact ⟨List.not_mem_nil, by rw [here, List.nil_append]⟩
        · simp only [splitFirst, here, if_false, Option.map_eq_some_iff, Prod.exists,
            Prod.mk.injEq] at split
          obtain ⟨front, _, found, rfl, rfl⟩ := split
          obtain ⟨unmarked, rfl⟩ := ih found
          exact ⟨by simp [unmarked, Ne.symm here], rfl⟩
  · rintro ⟨unmarked, rfl⟩
    exact splitFirst_append unmarked after

end KernelMaps.Text
