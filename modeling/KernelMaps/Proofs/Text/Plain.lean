import KernelMaps.Text.Blank
import KernelMaps.Text.Utf8
import Mathlib.Data.List.TakeWhile

/-!
Texts in which nothing is hidden: ASCII characters take one byte each and are read back from it, and
nothing is trimmed from a text whose ends are not blank. Whatever is cut out of a text is a part of
it.
-/

namespace KernelMaps.Text

def Ascii (text : List Char) : Prop :=
  ∀ char ∈ text, char.toNat < 128

def Solid (text : List Char) : Prop :=
  ∀ char ∈ text, isBlank char = false

theorem ascii_cons {char : Char} {text : List Char} :
    Ascii (char :: text) ↔ char.toNat < 128 ∧ Ascii text :=
  List.forall_mem_cons

theorem ascii_append {first second : List Char} :
    Ascii (first ++ second) ↔ Ascii first ∧ Ascii second :=
  List.forall_mem_append

theorem solid_cons {char : Char} {text : List Char} :
    Solid (char :: text) ↔ isBlank char = false ∧ Solid text :=
  List.forall_mem_cons

theorem utf8Size_of_ascii {char : Char} (ascii : char.toNat < 128) : char.utf8Size = 1 := by
  rw [Char.utf8Size_eq_one_iff, UInt32.le_iff_toNat_le]
  exact Nat.le_of_lt_succ ascii

theorem utf8_length (text : List Char) : (utf8 text).length = utf8Length text := by
  induction text with
  | nil => rfl
  | cons char text ih =>
      rw [utf8] at ih
      rw [utf8, List.flatMap_cons, List.length_append, String.length_utf8EncodeChar, ih, utf8Length]

theorem utf8_cons_of_ascii {char : Char} (ascii : char.toNat < 128) (text : List Char) :
    utf8 (char :: text) = UInt8.ofNat char.toNat :: utf8 text := by
  rw [utf8, List.flatMap_cons, String.utf8EncodeChar_eq_singleton (utf8Size_of_ascii ascii)]
  rfl

theorem utf8Length_of_ascii {text : List Char} (ascii : Ascii text) :
    utf8Length text = text.length := by
  induction text with
  | nil => rfl
  | cons char text ih =>
      rw [ascii_cons] at ascii
      rw [utf8Length, utf8Size_of_ascii ascii.1, ih ascii.2, List.length_cons, Nat.add_comm]

theorem utf8_length_of_ascii {text : List Char} (ascii : Ascii text) :
    (utf8 text).length = text.length := by
  rw [utf8_length, utf8Length_of_ascii ascii]

theorem fronts_cons_of_ascii {char : Char} (ascii : char.toNat < 128) (rest : Bytes) :
    fronts (UInt8.ofNat char.toNat :: rest) = .char char 1 :: fronts rest := by
  have value : (UInt8.ofNat char.toNat).toNat = char.toNat := by
    rw [UInt8.toNat_ofNat']
    exact Nat.mod_eq_of_lt (by omega)
  have low : UInt8.ofNat char.toNat < 0x80 := by
    rw [UInt8.lt_iff_toNat_lt, value]
    exact ascii
  simp only [fronts, List.length_cons, frontsWithin, front, if_pos low, value, Char.ofNat_toNat,
    List.drop_succ_cons, List.drop_zero]

theorem decodeUtf8?_utf8 {text : List Char} (ascii : Ascii text) :
    decodeUtf8? (utf8 text) = some text := by
  induction text with
  | nil => rfl
  | cons char text ih =>
      rw [ascii_cons] at ascii
      have rest := ih ascii.2
      rw [decodeUtf8?] at rest ⊢
      rw [utf8_cons_of_ascii ascii.1, fronts_cons_of_ascii ascii.1, List.mapM_cons, rest]
      rfl

theorem trimStart_of_head {char : Char} {text : List Char} (solid : isBlank char = false) :
    trimStart (char :: text) = char :: text := by
  rw [trimStart, List.dropWhile_cons_of_neg (by simp [solid])]

theorem trim_of_ends {text : List Char}
    (first : ∀ char, text.head? = some char → isBlank char = false)
    (last : ∀ char, text.getLast? = some char → isBlank char = false) : trim text = text := by
  have start : trimStart text = text := by
    cases text with
    | nil => rfl
    | cons char rest => exact trimStart_of_head (first char rfl)
  have reversed : trimStart text.reverse = text.reverse := by
    cases backwards : text.reverse with
    | nil => rfl
    | cons char rest =>
        refine trimStart_of_head (last char ?_)
        rw [← List.head?_reverse, backwards, List.head?_cons]
  rw [trim, start, trimEnd, ← trimStart, reversed, List.reverse_reverse]

theorem trim_of_solid {text : List Char} (solid : Solid text) : trim text = text :=
  trim_of_ends (fun char first => solid char (List.mem_of_head? first))
    (fun char last => solid char (List.mem_of_getLast? last))

theorem splitAll_pieces (mark : Char) (text : List Char) :
    ∃ first others, splitAll mark text = first :: others ∧ first <+: text ∧
      ∀ piece ∈ others, piece <:+: text := by
  induction text with
  | nil => exact ⟨[], [], rfl, List.prefix_refl _, by simp⟩
  | cons char rest ih =>
      obtain ⟨first, others, split, front, behind⟩ := ih
      have shifted : ∀ piece ∈ others, piece <:+: char :: rest := fun piece member =>
        (behind piece member).trans (List.suffix_cons char rest).isInfix
      rw [splitAll, split]
      dsimp only
      split
      · refine ⟨[], first :: others, rfl, List.nil_prefix, List.forall_mem_cons.2 ⟨?_, shifted⟩⟩
        exact front.isInfix.trans (List.suffix_cons char rest).isInfix
      · exact ⟨char :: first, others, rfl, (List.prefix_cons_inj char).2 front, shifted⟩

theorem infix_of_mem_splitAll {mark : Char} {text piece : List Char}
    (member : piece ∈ splitAll mark text) : piece <:+: text := by
  obtain ⟨first, others, split, front, behind⟩ := splitAll_pieces mark text
  rw [split, List.mem_cons] at member
  rcases member with rfl | member
  · exact front.isInfix
  · exact behind piece member

theorem trim_infix (text : List Char) : trim text <:+: text := by
  have front : trimStart text <:+: text := (List.dropWhile_suffix _).isInfix
  have back : trimEnd (trimStart text) <:+: trimStart text := by
    rw [trimEnd, ← List.reverse_infix, List.reverse_reverse]
    exact (List.dropWhile_suffix _).isInfix
  exact back.trans front

end KernelMaps.Text
