import KernelMaps.Cpu.List
import KernelMaps.Proofs.Text.Layout
import KernelMaps.Proofs.Text.Pieces
import KernelMaps.Proofs.Text.Spelling
import Mathlib.Data.Finset.Sort
import Mathlib.Data.List.Intervals

/-!
Lists of CPUs. A list is read if and only if each piece of it names CPUs, and gives them in the
order of the text; the first piece that names none is reported. The longest ranges of a set of CPUs,
in ascending order, are read as the set.
-/

namespace KernelMaps.CpuList

/-- What names CPUs: a number, or two around a dash, of which the first is not the greater one. -/
inductive Names : List Char → List Cpu → Prop where
  | one {text : List Char} {cpu : Cpu} (number : Text.Natural 10 text cpu.toNat) :
      Names text [cpu]
  | range {before after : List Char} {first last : Cpu} {cpus : List Cpu}
      (lower : Text.Natural 10 before first.toNat) (upper : Text.Natural 10 after last.toNat)
      (ordered : first ≤ last)
      (each : cpus.map UInt32.toNat = List.Ico first.toNat (last.toNat + 1)) :
      Names (before ++ '-' :: after) cpus

/-- The pieces between the commas of a text, from whose ends the blanks are cut. Pieces with nothing
in them do not count. -/
def Listed (text : String) (pieces : List (List Char)) : Prop :=
  ∃ core parts, Text.Trimmed core text.toList ∧ Text.Cut ',' parts core ∧
    pieces = parts.filter fun part => !part.isEmpty

theorem readCpu_eq_some_iff {text : List Char} {cpu : Cpu} :
    readCpu text = some cpu ↔ Text.Natural 10 text cpu.toNat := by
  have limit : cpu.toNat ≤ bitRange 32 - 1 := Nat.le_sub_one_of_lt cpu.toNat_lt
  rw [readCpu]
  cases found : Text.readNatural 10 (bitRange 32 - 1) text with
  | error fault =>
      simp only [reduceCtorEq, false_iff]
      intro number
      rw [Text.readNatural_eq_ok_iff.2 ⟨number, limit⟩] at found
      contradiction
  | ok value =>
      obtain ⟨number, within⟩ := Text.readNatural_eq_ok_iff.1 found
      have same : (UInt32.ofNat value).toNat = value :=
        UInt32.toNat_ofNat_of_lt' (Nat.lt_of_le_of_lt within (by decide))
      constructor
      · intro read
        rwa [← Option.some.inj read, same]
      · intro other
        have again := Text.readNatural_eq_ok_iff.2 ⟨other, limit⟩
        rw [found] at again
        obtain rfl := Except.ok.inj again
        exact congrArg some UInt32.ofNat_toNat

theorem range_toNat (first last : Cpu) :
    (range first last).map UInt32.toNat = List.Ico first.toNat (last.toNat + 1) := by
  have bound := last.toNat_lt
  rw [range, List.map_map, List.Ico]
  refine (List.map_congr_left ?_).trans (List.map_id _)
  intro value member
  rw [List.mem_range'_1] at member
  exact UInt32.toNat_ofNat_of_lt' (show value < 2 ^ 32 by omega)

theorem eq_range_iff {cpus : List Cpu} {first last : Cpu} :
    cpus.map UInt32.toNat = List.Ico first.toNat (last.toNat + 1) ↔ cpus = range first last := by
  rw [← range_toNat]
  exact List.map_inj_right fun _ _ => UInt32.toNat_inj.1

theorem mem_range {cpu first last : Cpu} : cpu ∈ range first last ↔ first ≤ cpu ∧ cpu ≤ last := by
  rw [← List.mem_map_of_injective fun _ _ => UInt32.toNat_inj.1, range_toNat, List.Ico.mem,
    UInt32.le_iff_toNat_le, UInt32.le_iff_toNat_le, Nat.lt_succ_iff]

theorem range_ascending (first last : Cpu) : (range first last).Pairwise (· < ·) := by
  have ascending := List.Ico.pairwise_lt first.toNat (last.toNat + 1)
  rw [← range_toNat, List.pairwise_map] at ascending
  exact ascending.imp UInt32.lt_iff_toNat_lt.2

theorem dash_not_mem {text : List Char} {value : Nat} (number : Text.Natural 10 text value) :
    '-' ∉ text := by
  cases number with
  | plain numeral => exact numeral.not_mem (.inl (by decide))
  | plus numeral =>
      rw [List.mem_cons, not_or]
      exact ⟨by decide, numeral.not_mem (.inl (by decide))⟩

theorem readPiece_eq_some_iff {piece : List Char} {cpus : List Cpu} :
    readPiece piece = some cpus ↔ Names piece cpus := by
  rw [readPiece]
  cases split : Text.splitFirst '-' piece with
  | none =>
      have undashed := Text.splitFirst_eq_none_iff.1 split
      constructor
      · intro read
        obtain ⟨cpu, found, rfl⟩ := Option.map_eq_some_iff.1 read
        exact .one (readCpu_eq_some_iff.1 found)
      · intro names
        cases names with
        | one number => exact Option.map_eq_some_iff.2 ⟨_, readCpu_eq_some_iff.2 number, rfl⟩
        | range => simp at undashed
  | some halves =>
      obtain ⟨before, after⟩ := halves
      have whole := (Text.splitFirst_eq_some_iff.1 split).2
      constructor
      · intro read
        simp only [Option.bind_eq_bind, Option.bind_eq_some_iff] at read
        obtain ⟨first, lower, last, upper, read⟩ := read
        split at read
        · next ordered =>
            obtain rfl := Option.some.inj read
            rw [whole]
            exact .range (readCpu_eq_some_iff.1 lower) (readCpu_eq_some_iff.1 upper) ordered
              (range_toNat first last)
        · contradiction
      · intro names
        cases names with
        | one number => exact absurd (by simp [whole]) (dash_not_mem number)
        | range lower upper ordered each =>
            rw [Text.splitFirst_append (dash_not_mem lower)] at split
            obtain ⟨rfl, rfl⟩ := Prod.mk.inj (Option.some.inj split)
            simp only [readCpu_eq_some_iff.2 lower, readCpu_eq_some_iff.2 upper,
              Option.bind_eq_bind, Option.bind_some, if_pos ordered, eq_range_iff.1 each]
            rfl

theorem readPieces_of_names {piece : List Char} {first : List Cpu} (named : Names piece first)
    (rest : List (List Char)) :
    readPieces (piece :: rest) = (readPieces rest).map fun others => first ++ others := by
  rw [readPieces, readPiece_eq_some_iff.2 named]

theorem readPieces_of_nameless {piece : List Char} (nameless : ¬∃ cpus, Names piece cpus)
    (rest : List (List Char)) :
    readPieces (piece :: rest) =
      .error (.invalidData s!"invalid CPU range '{String.ofList piece}'") := by
  have unread : readPiece piece = none := Option.eq_none_iff_forall_ne_some.2 fun cpus read =>
    nameless ⟨cpus, readPiece_eq_some_iff.1 read⟩
  rw [readPieces, unread]

theorem readPieces_eq_ok_iff {pieces : List (List Char)} {cpus : List Cpu} :
    readPieces pieces = .ok cpus ↔
      ∃ lists, List.Forall₂ Names pieces lists ∧ cpus = lists.flatten := by
  constructor
  · intro read
    induction pieces generalizing cpus with
    | nil => exact ⟨[], .nil, (Except.ok.inj read).symm⟩
    | cons piece rest ih =>
        by_cases names : ∃ first, Names piece first
        · obtain ⟨first, named⟩ := names
          rw [readPieces_of_names named] at read
          cases others : readPieces rest with
          | error fault =>
              rw [others] at read
              contradiction
          | ok more =>
              rw [others] at read
              obtain ⟨lists, behind, rfl⟩ := ih others
              exact ⟨first :: lists, .cons named behind, (Except.ok.inj read).symm⟩
        · rw [readPieces_of_nameless names] at read
          contradiction
  · rintro ⟨lists, names, rfl⟩
    induction names with
    | nil => rfl
    | cons named _ ih =>
        rw [readPieces_of_names named, ih]
        rfl

theorem readPieces_eq_error_iff {pieces : List (List Char)} {error : IoError} :
    readPieces pieces = .error error ↔
      ∃ good bad rest, pieces = good ++ bad :: rest ∧ (∀ piece ∈ good, ∃ cpus, Names piece cpus) ∧
        (¬∃ cpus, Names bad cpus) ∧
        error = .invalidData s!"invalid CPU range '{String.ofList bad}'" := by
  constructor
  · intro failed
    induction pieces with
    | nil => contradiction
    | cons piece rest ih =>
        by_cases names : ∃ first, Names piece first
        · obtain ⟨first, named⟩ := names
          rw [readPieces_of_names named] at failed
          cases others : readPieces rest with
          | ok more =>
              rw [others] at failed
              contradiction
          | error fault =>
              rw [others] at failed
              obtain rfl : fault = error := Except.error.inj failed
              obtain ⟨good, bad, behind, rfl, before, nameless, message⟩ := ih others
              exact ⟨piece :: good, bad, behind, rfl,
                List.forall_mem_cons.2 ⟨⟨first, named⟩, before⟩, nameless, message⟩
        · rw [readPieces_of_nameless names] at failed
          exact ⟨[], piece, rest, rfl, List.forall_mem_nil _, names,
            (Except.error.inj failed).symm⟩
  · rintro ⟨good, bad, rest, rfl, names, nameless, rfl⟩
    induction good with
    | nil => exact readPieces_of_nameless nameless rest
    | cons piece good ih =>
        rw [List.forall_mem_cons] at names
        obtain ⟨⟨first, named⟩, names⟩ := names
        rw [List.cons_append, readPieces_of_names named, ih names]
        rfl

theorem pieces_eq_iff {text : String} {found : List (List Char)} :
    pieces text = found ↔ Listed text found := by
  constructor
  · rintro rfl
    exact ⟨_, _, Text.trimmed_iff.2 rfl, Text.splitAll_eq_iff.1 rfl, rfl⟩
  · rintro ⟨core, parts, trimmed, cut, rfl⟩
    rw [pieces, Text.trimmed_iff.1 trimmed, Text.splitAll_eq_iff.2 cut]

/-- What comes of reading a text with certain pieces: all CPUs that the pieces name, in their order,
or an error that quotes the first piece that names none. -/
structure Reads (text : String) (pieces : List (List Char)) : Prop where
  succeeds : (∃ cpus, parse text = .ok cpus) ↔ ∀ piece ∈ pieces, ∃ cpus, Names piece cpus
  listed : ∀ cpus, parse text = .ok cpus ↔
    ∃ lists, List.Forall₂ Names pieces lists ∧ cpus = lists.flatten
  refused : ∀ error, parse text = .error error ↔
    ∃ good bad rest, pieces = good ++ bad :: rest ∧ (∀ piece ∈ good, ∃ cpus, Names piece cpus) ∧
      (¬∃ cpus, Names bad cpus) ∧ error = .invalidData s!"invalid CPU range '{String.ofList bad}'"

theorem Listed.reads {text : String} {pieces : List (List Char)} (listed : Listed text pieces) :
    Reads text pieces := by
  have parsed : parse text = readPieces pieces := congrArg readPieces (pieces_eq_iff.2 listed)
  refine ⟨?_, fun _ => parsed ▸ readPieces_eq_ok_iff, fun _ => parsed ▸ readPieces_eq_error_iff⟩
  rw [parsed]
  constructor
  · rintro ⟨cpus, read⟩
    obtain ⟨lists, names, -⟩ := readPieces_eq_ok_iff.1 read
    clear * - names
    induction names with
    | nil => exact List.forall_mem_nil _
    | cons named _ ih => exact List.forall_mem_cons.2 ⟨⟨_, named⟩, ih⟩
  · intro names
    cases read : readPieces pieces with
    | ok cpus => exact ⟨cpus, rfl⟩
    | error error =>
        obtain ⟨good, bad, rest, rfl, -, nameless, -⟩ := readPieces_eq_error_iff.1 read
        exact absurd (names bad (List.mem_append_right good List.mem_cons_self)) nameless

/-- The longest ranges of a set of CPUs, in ascending order: behind each a CPU is missing. -/
structure MaximalRuns (spans : List (Cpu × Cpu)) (cpus : Finset Cpu) : Prop where
  ordered : ∀ span ∈ spans, span.1 ≤ span.2
  apart : spans.Pairwise fun earlier later => earlier.2.toNat + 1 < later.1.toNat
  covers : ∀ cpu, cpu ∈ cpus ↔ ∃ span ∈ spans, span.1 ≤ cpu ∧ cpu ≤ span.2

theorem MaximalRuns.stretch {first last cpu : Cpu} {rest : List (Cpu × Cpu)} {cpus : Finset Cpu}
    (maximal : MaximalRuns ((first, last) :: rest) cpus) (joined : cpu.toNat + 1 = first.toNat) :
    MaximalRuns ((cpu, last) :: rest) (insert cpu cpus) := by
  obtain ⟨ordered, apart, covers⟩ := maximal
  rw [List.forall_mem_cons] at ordered
  rw [List.pairwise_cons] at apart
  have nonempty : first.toNat ≤ last.toNat := UInt32.le_iff_toNat_le.1 ordered.1
  refine ⟨List.forall_mem_cons.2 ⟨?_, ordered.2⟩, List.pairwise_cons.2 apart, fun other => ?_⟩
  · rw [UInt32.le_iff_toNat_le]
    dsimp only
    omega
  · simp only [List.mem_cons, exists_eq_or_imp] at covers
    simp only [Finset.mem_insert, covers, List.mem_cons, exists_eq_or_imp]
    rw [← or_assoc]
    refine or_congr_left ?_
    simp only [UInt32.le_iff_toNat_le, ← UInt32.toNat_inj]
    omega

theorem MaximalRuns.prepend {spans : List (Cpu × Cpu)} {cpus : Finset Cpu} {cpu : Cpu}
    (maximal : MaximalRuns spans cpus) (gap : ∀ span ∈ spans, cpu.toNat + 1 < span.1.toNat) :
    MaximalRuns ((cpu, cpu) :: spans) (insert cpu cpus) := by
  obtain ⟨ordered, apart, covers⟩ := maximal
  refine ⟨List.forall_mem_cons.2 ⟨UInt32.le_refl cpu, ordered⟩, List.pairwise_cons.2 ⟨gap, apart⟩,
    fun other => ?_⟩
  simp only [Finset.mem_insert, covers, List.mem_cons, exists_eq_or_imp]
  refine or_congr_left ?_
  simp only [UInt32.le_iff_toNat_le, ← UInt32.toNat_inj]
  omega

theorem MaximalRuns.extend {spans : List (Cpu × Cpu)} {cpus : Finset Cpu} {cpu : Cpu}
    (maximal : MaximalRuns spans cpus) (below : ∀ other ∈ cpus, cpu < other) :
    MaximalRuns (extendRuns cpu spans) (insert cpu cpus) := by
  cases spans with
  | nil => exact maximal.prepend (List.forall_mem_nil _)
  | cons span rest =>
      obtain ⟨first, last⟩ := span
      have nonempty : first ≤ last := maximal.ordered _ List.mem_cons_self
      have next : cpu < first :=
        below first ((maximal.covers first).2
          ⟨_, List.mem_cons_self, UInt32.le_refl first, nonempty⟩)
      rw [UInt32.lt_iff_toNat_lt] at next
      rw [UInt32.le_iff_toNat_le] at nonempty
      rw [extendRuns]
      by_cases joined : cpu.toNat + 1 = first.toNat
      · rw [if_pos joined]
        exact maximal.stretch joined
      · rw [if_neg joined]
        refine maximal.prepend (List.forall_mem_cons.2 ⟨?_, fun later member => ?_⟩)
        · dsimp only
          omega
        · have behind := (List.pairwise_cons.1 maximal.apart).1 later member
          dsimp only at behind
          omega

theorem runs_maximal {cpus : List Cpu} (ascending : cpus.Pairwise (· < ·)) :
    MaximalRuns (runs cpus) cpus.toFinset := by
  induction ascending with
  | nil => exact ⟨List.forall_mem_nil _, .nil, by simp [runs]⟩
  | cons below _ ih =>
      rw [List.toFinset_cons]
      exact ih.extend fun other member => below other (List.mem_toFinset.1 member)

theorem MaximalRuns.ascending {spans : List (Cpu × Cpu)} {cpus : Finset Cpu}
    (maximal : MaximalRuns spans cpus) :
    (spans.flatMap fun span => range span.1 span.2).Pairwise (· < ·) := by
  rw [List.pairwise_flatMap]
  refine ⟨fun span _ => range_ascending span.1 span.2, maximal.apart.imp ?_⟩
  intro earlier later apart first before second behind
  rw [mem_range] at before behind
  have least := UInt32.le_iff_toNat_le.1 before.2
  have greatest := UInt32.le_iff_toNat_le.1 behind.1
  rw [UInt32.lt_iff_toNat_lt]
  omega

theorem MaximalRuns.mem_iff {spans : List (Cpu × Cpu)} {cpus : Finset Cpu}
    (maximal : MaximalRuns spans cpus) {cpu : Cpu} :
    cpu ∈ (spans.flatMap fun span => range span.1 span.2) ↔ cpu ∈ cpus := by
  simp only [List.mem_flatMap, mem_range, maximal.covers]

def renderRuns (spans : List (Cpu × Cpu)) : String :=
  String.ofList ([','].intercalate (spans.map renderRun))

theorem render_eq (cpus : List Cpu) : render cpus = renderRuns (runs cpus) :=
  rfl

theorem names_renderRun {span : Cpu × Cpu} (ordered : span.1 ≤ span.2) :
    Names (renderRun span) (range span.1 span.2) := by
  obtain ⟨first, last⟩ := span
  rw [renderRun]
  dsimp only at ordered ⊢
  by_cases single : first = last
  · obtain rfl := single
    have alone : [first] = range first first := eq_range_iff.1 (List.Ico.succ_singleton).symm
    rw [if_pos rfl, ← alone]
    exact .one (.plain (Text.numeral_decimal first.toNat))
  · rw [if_neg single]
    exact .range (.plain (Text.numeral_decimal _)) (.plain (Text.numeral_decimal _)) ordered
      (range_toNat first last)

theorem renderRun_chars {span : Cpu × Cpu} :
    ∀ char ∈ renderRun span, char.isDigit = true ∨ char = '-' := by
  intro char member
  rw [renderRun] at member
  split at member
  · exact .inl (Text.isDigit_of_mem_decimal _ member)
  · rw [List.mem_append, List.mem_cons] at member
    rcases member with lower | rfl | upper
    · exact .inl (Text.isDigit_of_mem_decimal _ lower)
    · exact .inr rfl
    · exact .inl (Text.isDigit_of_mem_decimal _ upper)

theorem renderRun_ne_nil (span : Cpu × Cpu) : renderRun span ≠ [] := by
  rw [renderRun]
  split
  · exact Text.decimal_ne_nil _
  · exact List.append_ne_nil_of_left_ne_nil (Text.decimal_ne_nil _) _

theorem solid_renderRun (span : Cpu × Cpu) : Text.Solid (renderRun span) := by
  intro char member
  rcases renderRun_chars char member with digit | rfl
  · exact Text.isBlank_of_isDigit digit
  · decide

theorem comma_not_mem_renderRun (span : Cpu × Cpu) : ',' ∉ renderRun span := by
  intro member
  rcases renderRun_chars ',' member with digit | dash
  · exact absurd digit (by decide)
  · exact absurd dash (by decide)

theorem cut_renderRuns (spans : List (Cpu × Cpu)) :
    ∃ parts, Text.Cut ',' parts (renderRuns spans).toList ∧
      spans.map renderRun = parts.filter fun part => !part.isEmpty := by
  rw [renderRuns, String.toList_ofList]
  cases spans with
  | nil => exact ⟨[[]], ⟨by simp, by simp, rfl⟩, rfl⟩
  | cons span rest =>
      refine ⟨(span :: rest).map renderRun, ⟨List.cons_ne_nil _ _, ?_, rfl⟩, ?_⟩
      · exact List.forall_mem_map.2 fun span _ => comma_not_mem_renderRun span
      · refine (List.filter_eq_self.2 (List.forall_mem_map.2 fun span _ => ?_)).symm
        simpa using renderRun_ne_nil span

theorem listed_renderRuns (spans : List (Cpu × Cpu)) {ending : String}
    (blank : Text.Blanks ending.toList) :
    Listed (renderRuns spans ++ ending) (spans.map renderRun) := by
  obtain ⟨parts, cut, filled⟩ := cut_renderRuns spans
  have solid : Text.Solid (renderRuns spans).toList := by
    rw [renderRuns, String.toList_ofList]
    exact Text.solid_intercalate (by decide)
      (List.forall_mem_map.2 fun span _ => solid_renderRun span)
  refine ⟨_, parts, ⟨⟨[], _, Text.blanks_nil, blank, String.toList_append⟩, ?_, ?_⟩, cut, filled⟩
  · exact fun char first => solid char (List.mem_of_head? first)
  · exact fun char last => solid char (List.mem_of_getLast? last)

theorem parse_renderRuns {spans : List (Cpu × Cpu)} (ordered : ∀ span ∈ spans, span.1 ≤ span.2)
    {ending : String} (blank : Text.Blanks ending.toList) :
    parse (renderRuns spans ++ ending) = .ok (spans.flatMap fun span => range span.1 span.2) := by
  refine ((listed_renderRuns spans blank).reads.listed _).2 ⟨_, ?_, List.flatMap_def⟩
  rw [List.forall₂_map_left_iff, List.forall₂_map_right_iff, List.forall₂_same]
  exact fun span member => names_renderRun (ordered span member)

theorem MaximalRuns.parse_eq {spans : List (Cpu × Cpu)} {cpus : Finset Cpu}
    (maximal : MaximalRuns spans cpus) {listed : List Cpu} (ascending : listed.Pairwise (· < ·))
    (members : ∀ cpu, cpu ∈ listed ↔ cpu ∈ cpus) {ending : String}
    (blank : Text.Blanks ending.toList) : parse (renderRuns spans ++ ending) = .ok listed := by
  rw [parse_renderRuns maximal.ordered blank]
  refine congrArg Except.ok (maximal.ascending.eq_of_mem_iff ascending fun cpu => ?_)
  rw [maximal.mem_iff, members]

theorem exists_ascending (cpus : Finset Cpu) :
    ∃ listed : List Cpu, listed.Pairwise (· < ·) ∧ (∀ cpu, cpu ∈ listed ↔ cpu ∈ cpus) ∧
      listed.length = cpus.card := by
  refine ⟨cpus.sort (· ≤ ·), ?_, fun cpu => cpus.mem_sort (· ≤ ·), cpus.length_sort (· ≤ ·)⟩
  have ordered := cpus.pairwise_sort (· ≤ ·)
  have distinct := cpus.sort_nodup (· ≤ ·)
  exact ordered.imp₂ (fun first second below apart => UInt32.lt_of_le_of_ne below apart) distinct

/-- A text is read exactly if every piece of it names CPUs, and as all of them in their order, and
the text of the longest ranges of a set is read as the set in ascending order, whether or not the
line is ended. -/
theorem lists_read_and_sets_restored :
    (∀ text, ∃ pieces, Listed text pieces) ∧
      (∀ text pieces, Listed text pieces → Reads text pieces) ∧
      ∀ cpus : Finset Cpu, ∃ listed : List Cpu,
        (listed.Pairwise (· < ·) ∧ (∀ cpu, cpu ∈ listed ↔ cpu ∈ cpus) ∧
          listed.length = cpus.card) ∧
        (MaximalRuns (runs listed) cpus ∧ render listed = renderRuns (runs listed)) ∧
        ∀ spans, MaximalRuns spans cpus → ∀ ending ∈ ["", "\n"],
          parse (renderRuns spans ++ ending) = .ok listed := by
  refine ⟨fun text => ⟨pieces text, pieces_eq_iff.1 rfl⟩, fun _ _ => Listed.reads, fun cpus => ?_⟩
  obtain ⟨listed, ascending, members, length⟩ := exists_ascending cpus
  have same : listed.toFinset = cpus := Finset.ext fun cpu => by rw [List.mem_toFinset, members]
  have maximal : MaximalRuns (runs listed) cpus := same ▸ runs_maximal ascending
  refine ⟨listed, ⟨ascending, members, length⟩, ⟨maximal, render_eq listed⟩, ?_⟩
  intro spans maximal ending either
  refine maximal.parse_eq ascending members ?_
  simp only [List.mem_cons, List.not_mem_nil, or_false] at either
  rcases either with rfl | rfl
  · exact Text.blanks_nil
  · exact Text.blanks_cons.2 ⟨by decide, Text.blanks_nil⟩

theorem backward_range_refused_and_line_read :
    parse " 7,,+2,3-1,x" = .error (.invalidData "invalid CPU range '3-1'") ∧
      ∃ listed : List Cpu, (listed.Pairwise (· < ·) ∧ listed.length = 3) ∧
        parse "0-1,4\n" = .ok listed := by
  obtain ⟨-, reads, restored⟩ := lists_read_and_sets_restored
  constructor
  · have listed : Listed " 7,,+2,3-1,x" [['7'], ['+', '2'], ['3', '-', '1'], ['x']] :=
      pieces_eq_iff.1 (by decide)
    refine ((reads _ _ listed).refused _).2 ⟨[['7'], ['+', '2']], _, _, rfl, ?_, ?_, by decide⟩
    · simp only [List.mem_cons, List.not_mem_nil, or_false, forall_eq_or_imp, forall_eq]
      exact ⟨⟨[7], readPiece_eq_some_iff.1 (by decide)⟩, [2], readPiece_eq_some_iff.1 (by decide)⟩
    · rintro ⟨cpus, names⟩
      have unread : readPiece ['3', '-', '1'] = none := by decide
      rw [readPiece_eq_some_iff.2 names] at unread
      contradiction
  · have ascending : [0, 1, 4].Pairwise ((· < ·) : Cpu → Cpu → Prop) := by decide
    have maximal : MaximalRuns [(0, 1), (4, 4)] [0, 1, 4].toFinset := runs_maximal ascending
    obtain ⟨listed, ⟨sorted, -, length⟩, -, read⟩ := restored ([0, 1, 4] : List Cpu).toFinset
    exact ⟨listed, ⟨sorted, length⟩, read _ maximal "\n" (by simp)⟩

end KernelMaps.CpuList
