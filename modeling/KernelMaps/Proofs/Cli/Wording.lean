import KernelMaps.Cli.Run
import KernelMaps.Proofs.Text.Numerals
import Mathlib.Data.List.Infix

/-!
What the wording of a failure tells about its cause. The status of a run is read off the words of
its message, in which texts from outside stand beside those of the program. No phrase that counts
can begin in one of these and end in another, so that a message tells what its cause is and what a
text in it says, and nothing else.
-/

namespace KernelMaps.Cli

inductive Cause where
  | permission
  | usage
  deriving DecidableEq

namespace Cause

def phrases : Cause → List (List Char)
  | permission => [
      ['p', 'e', 'r', 'm', 'i', 's', 's', 'i', 'o', 'n', ' ',
        'd', 'e', 'n', 'i', 'e', 'd'],
      ['o', 'p', 'e', 'r', 'a', 't', 'i', 'o', 'n', ' ',
        'n', 'o', 't', ' ', 'p', 'e', 'r', 'm', 'i', 't', 't', 'e', 'd']]
  | usage => [
      ['c', 'a', 'n', 'n', 'o', 't', ' ', 'p', 'a', 'r', 's', 'e'],
      ['c', 'o', 'd', 'e', 'c', ' ', 'e', 'x', 'p', 'e', 'c', 't', 's']]

end Cause

def folded (letters : List Char) : List Char :=
  letters.map Char.toLower

/-- Whether a text holds a phrase of a cause, in letters of either case. -/
def Holds (cause : Cause) (letters : List Char) : Prop :=
  ∃ phrase ∈ cause.phrases, phrase <:+: folded letters

def Tells (cause : Cause) (text : String) : Prop :=
  Holds cause text.toList

instance (cause : Cause) (letters : List Char) : Decidable (Holds cause letters) :=
  inferInstanceAs (Decidable (∃ phrase ∈ cause.phrases, _))

instance (cause : Cause) (text : String) : Decidable (Tells cause text) :=
  inferInstanceAs (Decidable (Holds cause text.toList))

theorem mentions_iff {phrase text : List Char} :
    mentions phrase text = true ↔ phrase <:+: text := by
  induction text with
  | nil => simp [mentions]
  | cons char rest ih => simp [mentions, ih, List.infix_cons_iff]

/-- Whether a status is the one of what is told: permission comes before usage. -/
structure Exits (exit : Nat) (told : Cause → Prop) : Prop where
  permission : exit = exitNoPermission ↔ told .permission
  usage : exit = exitUsage ↔ ¬told .permission ∧ told .usage
  other : exit = exitError ↔ ¬told .permission ∧ ¬told .usage

theorem Exits.congr {exit : Nat} {told other : Cause → Prop} (exits : Exits exit told)
    (same : ∀ cause, told cause ↔ other cause) : Exits exit other := by
  simpa only [← funext fun cause => propext (same cause)] using exits

theorem Exits.unique {first second : Nat} {told : Cause → Prop} (one : Exits first told)
    (another : Exits second told) : first = second := by
  by_cases denied : told .permission
  · rw [one.permission.2 denied, another.permission.2 denied]
  · by_cases unread : told .usage
    · rw [one.usage.2 ⟨denied, unread⟩, another.usage.2 ⟨denied, unread⟩]
    · rw [one.other.2 ⟨denied, unread⟩, another.other.2 ⟨denied, unread⟩]

theorem exitCode_exits (message : String) :
    Exits (exitCode message) fun cause => Tells cause message := by
  let text := message.toList.map Char.toLower
  have denied : (mentions "permission denied".toList text ||
      mentions "operation not permitted".toList text) = true ↔ Tells .permission message := by
    simp [Tells, Holds, Cause.phrases, folded, mentions_iff, text]
  have unread : (mentions "cannot parse".toList text ||
      mentions "codec expects".toList text) = true ↔ Tells .usage message := by
    simp [Tells, Holds, Cause.phrases, folded, mentions_iff, text]
  have code : exitCode message = if Tells .permission message then exitNoPermission
      else if Tells .usage message then exitUsage else exitError := by
    simp only [exitCode, ← denied, ← unread, text]
  rw [code]
  by_cases told : Tells .permission message
  · constructor <;> simp [told, exitNoPermission, exitUsage, exitError]
  · by_cases read : Tells .usage message <;>
      constructor <;> simp [told, read, exitNoPermission, exitUsage, exitError]

/-! Texts that no phrase runs into, out of or across. -/

def RunsOut (phrase fixed : List Char) : Prop :=
  ∃ tail ∈ fixed.tails, tail ≠ [] ∧ tail <+: phrase

def RunsIn (phrase fixed : List Char) : Prop :=
  ∃ tail ∈ phrase.tails, tail ≠ [] ∧ tail <+: fixed

instance (phrase fixed : List Char) : Decidable (RunsOut phrase fixed) :=
  inferInstanceAs (Decidable (∃ tail ∈ fixed.tails, _))

instance (phrase fixed : List Char) : Decidable (RunsIn phrase fixed) :=
  inferInstanceAs (Decidable (∃ tail ∈ phrase.tails, _))

theorem infix_append_cases {phrase before after : List Char} (held : phrase <:+: before ++ after) :
    phrase <:+: before ∨ phrase <:+: after ∨
      ∃ left right, left ++ right = phrase ∧ left ≠ [] ∧ right ≠ [] ∧
        left <:+ before ∧ right <+: after := by
  rcases List.infix_append_iff.1 held with early | late | ⟨left, right, rfl, ends, begins⟩
  · exact .inl early
  · exact .inr (.inl late)
  · cases left with
    | nil => exact .inr (.inl begins.isInfix)
    | cons first left =>
        cases right with
        | nil =>
            rw [List.append_nil]
            exact .inl ends.isInfix
        | cons next right =>
            exact .inr (.inr ⟨_, _, rfl, List.cons_ne_nil _ _, List.cons_ne_nil _ _, ends, begins⟩)

def Leads (cause : Cause) (letters : List Char) : Prop :=
  ∀ phrase ∈ cause.phrases, ¬phrase <:+: folded letters ∧ ¬RunsOut phrase (folded letters)

def Trails (cause : Cause) (letters : List Char) : Prop :=
  ∀ phrase ∈ cause.phrases, ¬phrase <:+: folded letters ∧ ¬RunsIn phrase (folded letters)

/-- Whether a text keeps what stands before it apart from what stands behind it. -/
def Parts (cause : Cause) (letters : List Char) : Prop :=
  Leads cause letters ∧ Trails cause letters ∧
    ∀ phrase ∈ cause.phrases, ¬folded letters <:+: phrase

instance (cause : Cause) (letters : List Char) : Decidable (Leads cause letters) :=
  inferInstanceAs (Decidable (∀ phrase ∈ cause.phrases, _))

instance (cause : Cause) (letters : List Char) : Decidable (Trails cause letters) :=
  inferInstanceAs (Decidable (∀ phrase ∈ cause.phrases, _))

instance (cause : Cause) (letters : List Char) : Decidable (Parts cause letters) :=
  inferInstanceAs (Decidable (_ ∧ _))

section

variable {cause : Cause} {before fixed after : String}

theorem folded_append (first second : String) :
    folded (first ++ second).toList = folded first.toList ++ folded second.toList := by
  simp [folded]

theorem Tells.append (tells : Tells cause before) (after : String) :
    Tells cause (before ++ after) := by
  obtain ⟨phrase, listed, held⟩ := tells
  refine ⟨phrase, listed, ?_⟩
  rw [folded_append]
  exact held.trans (List.prefix_append _ _).isInfix

theorem Tells.behind (tells : Tells cause after) (before : String) :
    Tells cause (before ++ after) := by
  obtain ⟨phrase, listed, held⟩ := tells
  refine ⟨phrase, listed, ?_⟩
  rw [folded_append]
  exact held.trans (List.suffix_append _ _).isInfix

@[simp] theorem not_tells_of_leads (leads : Leads cause fixed.toList) : ¬Tells cause fixed := by
  rintro ⟨phrase, listed, held⟩
  exact (leads phrase listed).1 held

@[simp] theorem tells_behind (leads : Leads cause fixed.toList) :
    Tells cause (fixed ++ after) ↔ Tells cause after := by
  refine ⟨?_, fun tells => tells.behind fixed⟩
  rintro ⟨phrase, listed, held⟩
  rw [folded_append] at held
  obtain ⟨silent, ends⟩ := leads phrase listed
  rcases infix_append_cases held with early | late | ⟨left, right, whole, begun, -, taken, -⟩
  · exact absurd early silent
  · exact ⟨phrase, listed, late⟩
  · exact absurd ⟨left, (List.mem_tails _ _).2 taken, begun, right, whole⟩ ends

@[simp] theorem tells_front (trails : Trails cause fixed.toList) :
    Tells cause (before ++ fixed) ↔ Tells cause before := by
  refine ⟨?_, fun tells => tells.append fixed⟩
  rintro ⟨phrase, listed, held⟩
  rw [folded_append] at held
  obtain ⟨silent, begins⟩ := trails phrase listed
  rcases infix_append_cases held with early | late | ⟨left, right, whole, -, rest, -, taken⟩
  · exact ⟨phrase, listed, early⟩
  · exact absurd late silent
  · exact absurd ⟨right, (List.mem_tails _ _).2 ⟨left, whole⟩, rest, taken⟩ begins

@[simp] theorem tells_around (parts : Parts cause fixed.toList) :
    Tells cause (before ++ fixed ++ after) ↔ Tells cause before ∨ Tells cause after := by
  obtain ⟨leads, trails, short⟩ := parts
  constructor
  · rintro ⟨phrase, listed, held⟩
    rw [folded_append] at held
    rcases infix_append_cases held with early | late | ⟨left, right, whole, begun, -, taken, -⟩
    · exact .inl ((tells_front trails).1 ⟨phrase, listed, early⟩)
    · exact .inr ⟨phrase, listed, late⟩
    · rw [folded_append] at taken
      rcases List.suffix_or_suffix_of_suffix taken (List.suffix_append _ _) with ends | across
      · have cut : left ∈ (folded fixed.toList).tails := (List.mem_tails _ _).2 ends
        exact absurd ⟨left, cut, begun, right, whole⟩ (leads phrase listed).2
      · -- it would begin before the fixed text and end behind it, and so hold all of it
        have front : left <+: phrase := ⟨right, whole⟩
        exact absurd (across.isInfix.trans front.isInfix) (short phrase listed)
  · rintro (early | late)
    · exact (early.append fixed).append after
    · exact late.behind (before ++ fixed)

theorem tells_letters {letters : List Char} (holds : Holds cause letters) :
    Tells cause (String.ofList letters) := by
  rwa [Tells, String.toList_ofList]

theorem not_tells_letters {letters : List Char} (silent : ¬Holds cause letters) :
    ¬Tells cause (String.ofList letters) := by
  rwa [Tells, String.toList_ofList]

theorem tells_empty : ¬Tells cause "" := by
  cases cause <;> decide

theorem tells_intercalate (parts : Parts cause fixed.toList) (texts : List String) :
    Tells cause (fixed.intercalate texts) ↔ ∃ text ∈ texts, Tells cause text := by
  induction texts with
  | nil => simp [tells_empty]
  | cons first rest ih =>
      cases rest with
      | nil => simp
      | cons next rest =>
          rw [String.intercalate_cons_cons, tells_around parts, ih]
          simp

theorem eq_blank_of_toLower {char : Char} (lowered : char.toLower = ' ') : char = ' ' := by
  by_cases upper : char.val ≥ 'A'.val ∧ char.val ≤ 'Z'.val
  · have raised : char.toLower.val = char.val + ('a'.val - 'A'.val) :=
      congrArg Char.val (dif_pos upper)
    have codes : (char.toNat + 32) % 4294967296 = 32 := by
      rw [lowered] at raised
      simpa using congrArg UInt32.toNat raised.symm
    have letter : 65 ≤ char.toNat ∧ char.toNat ≤ 90 := by
      simpa [UInt32.le_iff_toNat_le] using upper
    omega
  · have same : char.toLower = char := dif_neg upper
    rwa [same] at lowered

theorem not_tells_word (word : ' ' ∉ fixed.toList) : ¬Tells cause fixed := by
  have spaced : ∀ phrase ∈ cause.phrases, ' ' ∈ phrase := by cases cause <;> decide
  rintro ⟨phrase, listed, held⟩
  obtain ⟨char, written, lowered⟩ := List.mem_map.1 (held.subset (spaced phrase listed))
  exact word (eq_blank_of_toLower lowered ▸ written)

@[simp] theorem not_tells_number (number : Nat) : ¬Tells cause number.repr := by
  refine not_tells_word fun blank => ?_
  rw [Nat.toList_repr] at blank
  have numeral := Text.isDigit_of_mem_decimal number blank
  contradiction

end

end KernelMaps.Cli
