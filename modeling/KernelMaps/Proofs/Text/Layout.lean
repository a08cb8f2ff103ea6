import KernelMaps.Proofs.Text.Plain

/-!
Where blanks may stand in a text. Trimming finds what is padded with blanks, cutting finds the words
that blanks keep apart, and both are the only answers there are.
-/

namespace KernelMaps.Text

def Blanks (text : List Char) : Prop :=
  ∀ char ∈ text, isBlank char = true

/-- A text is another one with blanks in front of it and behind it, or none. -/
def Padded (core text : List Char) : Prop :=
  ∃ front back, Blanks front ∧ Blanks back ∧ text = front ++ core ++ back

def Trimmed (core text : List Char) : Prop :=
  Padded core text ∧ (∀ char, core.head? = some char → isBlank char = false) ∧
    ∀ char, core.getLast? = some char → isBlank char = false

def Breaks (text : List Char) : Prop :=
  ∀ char, text.head? = some char → isBlank char = true

/-- The words of a text: no word is empty or has a blank in it, and at least one blank stands
between two of them. -/
inductive Separated : List (List Char) → List Char → Prop where
  | blanks {text : List Char} (blank : Blanks text) : Separated [] text
  | word {gap word rest : List Char} {others : List (List Char)} (blank : Blanks gap)
      (filled : word ≠ []) (solid : Solid word) (breaks : Breaks rest)
      (separated : Separated others rest) : Separated (word :: others) (gap ++ word ++ rest)

theorem blanks_nil : Blanks [] :=
  List.forall_mem_nil _

theorem blanks_cons {char : Char} {text : List Char} :
    Blanks (char :: text) ↔ isBlank char = true ∧ Blanks text :=
  List.forall_mem_cons

theorem breaks_cons {char : Char} {text : List Char} (blank : isBlank char = true) :
    Breaks (char :: text) := by
  rintro first head
  rw [List.head?_cons, Option.some.injEq] at head
  rwa [← head]

theorem breaks_nil : Breaks [] :=
  fun _ head => nomatch head

theorem trimStart_blanks_append {gap : List Char} (blank : Blanks gap) (text : List Char) :
    trimStart (gap ++ text) = trimStart text :=
  List.dropWhile_append_of_pos blank

theorem trimStart_of_blanks {gap : List Char} (blank : Blanks gap) : trimStart gap = [] := by
  have cut := trimStart_blanks_append blank []
  rwa [List.append_nil] at cut

theorem trimEnd_eq (text : List Char) : trimEnd text = (trimStart text.reverse).reverse :=
  rfl

theorem Blanks.reverse {gap : List Char} (blank : Blanks gap) : Blanks gap.reverse :=
  fun char member => blank char (List.mem_reverse.mp member)

theorem trimEnd_append_blanks {gap : List Char} (text : List Char) (blank : Blanks gap) :
    trimEnd (text ++ gap) = trimEnd text := by
  rw [trimEnd_eq, List.reverse_append, trimStart_blanks_append blank.reverse, trimEnd_eq]

theorem exists_blanks_trimStart (text : List Char) :
    ∃ gap, Blanks gap ∧ text = gap ++ trimStart text :=
  ⟨text.takeWhile isBlank, fun _ => List.mem_takeWhile_imp,
    List.takeWhile_append_dropWhile.symm⟩

theorem exists_blanks_trimEnd (text : List Char) :
    ∃ gap, Blanks gap ∧ text = trimEnd text ++ gap := by
  obtain ⟨gap, blank, reversed⟩ := exists_blanks_trimStart text.reverse
  refine ⟨gap.reverse, blank.reverse, ?_⟩
  rw [trimEnd_eq, ← List.reverse_append, ← reversed, List.reverse_reverse]

theorem padded_trim (text : List Char) : Padded (trim text) text := by
  obtain ⟨front, frontBlank, start⟩ := exists_blanks_trimStart text
  obtain ⟨back, backBlank, rest⟩ := exists_blanks_trimEnd (trimStart text)
  refine ⟨front, back, frontBlank, backBlank, ?_⟩
  rw [trim, List.append_assoc, ← rest]
  exact start

theorem Padded.trim_eq {core text : List Char} (padded : Padded core text) :
    trim text = trim core := by
  obtain ⟨front, back, frontBlank, backBlank, rfl⟩ := padded
  rw [trim, List.append_assoc, trimStart_blanks_append frontBlank]
  cases kept : trimStart core with
  | nil =>
      have nothing : trimStart (core ++ back) = [] := by
        rw [trimStart, List.dropWhile_append, ← trimStart, kept]
        exact trimStart_of_blanks backBlank
      rw [nothing, trim, kept]
  | cons char rest =>
      have start : trimStart (core ++ back) = trimStart core ++ back := by
        rw [trimStart, List.dropWhile_append, ← trimStart, kept]
        rfl
      rw [start, trimEnd_append_blanks _ backBlank, trim]

theorem padded_iff_of_trim {core text : List Char} (trimmed : trim core = core) :
    Padded core text ↔ trim text = core := by
  constructor
  · intro padded
    rw [padded.trim_eq, trimmed]
  · rintro rfl
    exact padded_trim text

theorem head_trimStart {text : List Char} {char : Char}
    (head : (trimStart text).head? = some char) : isBlank char = false := by
  have kept := List.head?_dropWhile_not isBlank text
  rw [← trimStart, head] at kept
  simpa using kept

theorem getLast_trimEnd {text : List Char} {char : Char}
    (last : (trimEnd text).getLast? = some char) : isBlank char = false := by
  rw [trimEnd_eq, List.getLast?_reverse] at last
  exact head_trimStart last

theorem head_trim {text : List Char} {char : Char} (head : (trim text).head? = some char) :
    isBlank char = false := by
  obtain ⟨gap, -, whole⟩ := exists_blanks_trimEnd (trimStart text)
  have start : (trimStart text).head? = some char := by
    rw [whole, ← trim, List.head?_append, head, Option.some_or]
  exact head_trimStart start

theorem trimmed_iff {core text : List Char} : Trimmed core text ↔ trim text = core := by
  constructor
  · rintro ⟨padded, first, last⟩
    rw [padded.trim_eq, trim_of_ends first last]
  · rintro rfl
    exact ⟨padded_trim text, fun _ => head_trim, fun _ => getLast_trimEnd⟩

theorem Separated.cons_blank {words : List (List Char)} {text : List Char} {char : Char}
    (separated : Separated words text) (blank : isBlank char = true) :
    Separated words (char :: text) := by
  cases separated with
  | blanks rest => exact .blanks (blanks_cons.mpr ⟨blank, rest⟩)
  | word gap filled solid breaks others =>
      exact .word (blanks_cons.mpr ⟨blank, gap⟩) filled solid breaks others

theorem separated_close {word rest : List Char} {others : List (List Char)} (solid : Solid word)
    (breaks : Breaks rest) (separated : Separated others rest) :
    Separated (if word.isEmpty then others else word :: others) (word ++ rest) := by
  cases word with
  | nil => exact separated
  | cons char word =>
      exact .word blanks_nil (List.cons_ne_nil char word) solid breaks separated

/-- The fold from the right stands at a word that may go on to the left, behind it the words of a
rest that a blank begins. -/
theorem separated_foldr_extendWords (text : List Char) :
    ∃ rest, text = (text.foldr extendWords ([], [])).1 ++ rest ∧ Breaks rest ∧
      Solid (text.foldr extendWords ([], [])).1 ∧
      Separated (text.foldr extendWords ([], [])).2 rest := by
  induction text with
  | nil => exact ⟨[], rfl, breaks_nil, List.forall_mem_nil _, .blanks blanks_nil⟩
  | cons char text ih =>
      rw [List.foldr_cons]
      rcases found : text.foldr extendWords ([], []) with ⟨word, others⟩
      rw [found] at ih
      obtain ⟨rest, whole, breaks, solid, separated⟩ := ih
      dsimp only at whole solid separated
      rw [extendWords]
      cases blank : isBlank char with
      | true =>
          refine ⟨char :: text, rfl, breaks_cons blank, List.forall_mem_nil _, ?_⟩
          rw [whole]
          exact (separated_close solid breaks separated).cons_blank blank
      | false =>
          exact ⟨rest, congrArg (char :: ·) whole, breaks, solid_cons.mpr ⟨blank, solid⟩, separated⟩

theorem separated_words (text : List Char) : Separated (words text) text := by
  obtain ⟨rest, whole, breaks, solid, separated⟩ := separated_foldr_extendWords text
  have closed := separated_close solid breaks separated
  rwa [← whole] at closed

theorem words_cons_blank {char : Char} (blank : isBlank char = true) (text : List Char) :
    words (char :: text) = words text := by
  simp only [words, List.foldr_cons, extendWords, blank, if_true, List.isEmpty_nil]

theorem words_blanks_append {gap : List Char} (blank : Blanks gap) (text : List Char) :
    words (gap ++ text) = words text := by
  induction gap with
  | nil => rfl
  | cons char gap ih =>
      rw [blanks_cons] at blank
      rw [List.cons_append, words_cons_blank blank.1, ih blank.2]

theorem words_of_blanks {gap : List Char} (blank : Blanks gap) : words gap = [] := by
  have cut := words_blanks_append blank []
  rwa [List.append_nil] at cut

theorem foldr_extendWords_of_breaks {text : List Char} (breaks : Breaks text) :
    text.foldr extendWords ([], []) = ([], words text) := by
  cases text with
  | nil => rfl
  | cons char text =>
      have blank := breaks char rfl
      simp only [words, List.foldr_cons, extendWords, blank, if_true, List.isEmpty_nil]

theorem foldr_extendWords {word : List Char} (solid : Solid word) (found : List (List Char)) :
    word.foldr extendWords ([], found) = (word, found) := by
  induction word with
  | nil => rfl
  | cons char rest ih =>
      rw [solid_cons] at solid
      rw [List.foldr_cons, ih solid.2, extendWords, solid.1]
      rfl

theorem words_append_of_breaks {word rest : List Char} (filled : word ≠ []) (solid : Solid word)
    (breaks : Breaks rest) : words (word ++ rest) = word :: words rest := by
  have folded : (word ++ rest).foldr extendWords ([], []) = (word, words rest) := by
    rw [List.foldr_append, foldr_extendWords_of_breaks breaks, foldr_extendWords solid]
  have nonempty : word.isEmpty = false := by simpa using filled
  rw [words, folded]
  simp only [nonempty, Bool.false_eq_true, if_false]

theorem Separated.words_eq {pieces : List (List Char)} {text : List Char}
    (separated : Separated pieces text) : words text = pieces := by
  induction separated with
  | blanks blank => exact words_of_blanks blank
  | word blank filled solid breaks _ ih =>
      rw [List.append_assoc, words_blanks_append blank, words_append_of_breaks filled solid breaks,
        ih]

theorem words_eq_iff {text : List Char} {pieces : List (List Char)} :
    words text = pieces ↔ Separated pieces text := by
  constructor
  · rintro rfl
    exact separated_words text
  · exact Separated.words_eq

theorem Separated.solid {pieces : List (List Char)} {text : List Char}
    (separated : Separated pieces text) : ∀ word ∈ pieces, Solid word := by
  induction separated with
  | blanks _ => exact List.forall_mem_nil _
  | word _ _ solid _ _ ih => exact List.forall_mem_cons.mpr ⟨solid, ih⟩

theorem solid_of_mem_words {text word : List Char} (member : word ∈ words text) : Solid word :=
  (separated_words text).solid word member

def spaced (words : List (List Char)) : List Char :=
  words.flatMap fun word => ' ' :: word

theorem separated_spaced {pieces : List (List Char)} (solid : ∀ word ∈ pieces, Solid word)
    (filled : ∀ word ∈ pieces, word ≠ []) : Separated pieces (spaced pieces ++ [' ']) := by
  have blank : Blanks [' '] := by simp [Blanks, isBlank, blankRanges]
  induction pieces with
  | nil => exact .blanks blank
  | cons word pieces ih =>
      rw [List.forall_mem_cons] at solid filled
      have split : spaced (word :: pieces) ++ [' '] =
          [' '] ++ word ++ (spaced pieces ++ [' ']) := by
        simp [spaced]
      have breaks : Breaks (spaced pieces ++ [' ']) := by
        cases pieces <;> exact breaks_cons (by decide)
      rw [split]
      exact .word blank filled.1 solid.1 breaks (ih solid.2 filled.2)

theorem words_spaced {pieces : List (List Char)} (solid : ∀ word ∈ pieces, Solid word)
    (filled : ∀ word ∈ pieces, word ≠ []) : words (spaced pieces ++ [' ']) = pieces :=
  (separated_spaced solid filled).words_eq

theorem stripLead_eq_some_iff {lead text rest : List Char} :
    stripLead lead text = some rest ↔ text = lead ++ rest := by
  rw [stripLead]
  split
  · next found =>
      obtain ⟨behind, rfl⟩ := List.isPrefixOf_iff_prefix.mp found
      rw [List.drop_left, Option.some.injEq, List.append_cancel_left_eq]
  · next missing =>
      have noPrefix : text ≠ lead ++ rest := by
        rintro rfl
        exact missing (List.isPrefixOf_iff_prefix.mpr (List.prefix_append lead rest))
      simp only [reduceCtorEq, noPrefix]

theorem stripLast_eq_some_iff {char : Char} {text rest : List Char} :
    stripLast char text = some rest ↔ text = rest ++ [char] := by
  rw [stripLast]
  split
  · next found =>
      obtain ⟨before, rfl⟩ := List.getLast?_eq_some_iff.mp found
      rw [List.dropLast_concat, Option.some.injEq, List.append_left_inj]
  · next missing =>
      have noEnd : text ≠ rest ++ [char] := by
        rintro rfl
        exact missing List.getLast?_concat
      simp only [reduceCtorEq, noEnd]

end KernelMaps.Text
