import KernelMaps.Proofs.Perf.Stream

/-!
Walks over a data area with any bytes in it. The size that a record claims is held against the size
of the area, not against the head. A walk therefore ends at the head unless it comes to a record
that reaches past it; then it ends behind that record, and hands out what stands there.
-/

namespace KernelMaps

def Delivery.StandsBetween (area : DataArea) (first last : Nat) : Delivery → Prop
  | .sample bytes =>
      ∃ position, first ≤ position ∧ position + bytes.length ≤ last ∧
        area.read position bytes.length = bytes
  | .lost count =>
      ∃ position, first ≤ position ∧ position + 8 ≤ last ∧
        UInt64.ofNat (wordValue (area.read position 8)) = count

theorem Delivery.StandsBetween.mono {area : DataArea} {first last inner outer : Nat}
    {delivery : Delivery} (stands : delivery.StandsBetween area inner outer)
    (before : first ≤ inner) (behind : outer ≤ last) : delivery.StandsBetween area first last := by
  cases delivery with
  | sample bytes =>
      obtain ⟨position, lower, upper, same⟩ := stands
      exact ⟨position, by omega, by omega, same⟩
  | lost count =>
      obtain ⟨position, lower, upper, same⟩ := stands
      exact ⟨position, by omega, by omega, same⟩

namespace DataArea

/-- The records that a walk from a tail comes to in front of the head, with their positions. -/
inductive Reaches (area : DataArea) (head : Nat) : Nat → Nat → PerfRecord → Prop where
  | here {tail : Nat} {record : PerfRecord} (inFront : tail < head)
      (found : area.recordAt tail = .ok record) : area.Reaches head tail tail record
  | next {tail position : Nat} {first record : PerfRecord} (inFront : tail < head)
      (found : area.recordAt tail = .ok first)
      (later : area.Reaches head (tail + first.size) position record) :
      area.Reaches head tail position record

def Overruns (area : DataArea) (head tail : Nat) : Prop :=
  ∃ position record, area.Reaches head tail position record ∧ head < position + record.size

def AgreesWith (area other : DataArea) (first last : Nat) : Prop :=
  area.size = other.size ∧
    ∀ position, first ≤ position → position < last → area.byteAt position = other.byteAt position

theorem not_overruns_of_le {area : DataArea} {head tail : Nat} (reached : head ≤ tail) :
    ¬ area.Overruns head tail := by
  rintro ⟨position, record, reaches, past⟩
  cases reaches with
  | here inFront found => omega
  | next inFront found later => omega

theorem not_overruns_of_corrupt {area : DataArea} {head tail claimed : Nat}
    (found : area.recordAt tail = .error claimed) : ¬ area.Overruns head tail := by
  rintro ⟨position, record, reaches, past⟩
  cases reaches with
  | here inFront same =>
      rw [found] at same
      contradiction
  | next inFront same later =>
      rw [found] at same
      contradiction

theorem overruns_of_record {area : DataArea} {head tail : Nat} {record : PerfRecord}
    (below : tail < head) (found : area.recordAt tail = .ok record) :
    area.Overruns head tail ↔
      head < tail + record.size ∨ area.Overruns head (tail + record.size) := by
  constructor
  · rintro ⟨position, other, reaches, past⟩
    cases reaches with
    | here inFront same =>
        rw [found] at same
        injection same with same
        exact .inl (same ▸ past)
    | next inFront same later =>
        rw [found] at same
        injection same with same
        exact .inr ⟨position, other, same ▸ later, past⟩
  · rintro (past | ⟨position, other, later, past⟩)
    · exact ⟨tail, record, .here below found, past⟩
    · exact ⟨position, other, .next below found later, past⟩

theorem take_read (area : DataArea) (position count taken : Nat) :
    (area.read position count).take taken = area.read position (min taken count) := by
  simp only [read, ← List.map_take, List.take_range]

theorem drop_read (area : DataArea) {position count dropped : Nat} (inside : dropped ≤ count) :
    (area.read position count).drop dropped = area.read (position + dropped) (count - dropped) := by
  obtain ⟨rest, rfl⟩ := Nat.exists_eq_add_of_le inside
  rw [read_add, List.drop_left' (read_length ..), Nat.add_sub_cancel_left]

theorem AgreesWith.read {area other : DataArea} {first last : Nat}
    (agrees : area.AgreesWith other first last) (position count : Nat) (lower : first ≤ position)
    (upper : position + count ≤ last) : area.read position count = other.read position count := by
  simp only [DataArea.read]
  apply List.map_congr_left
  intro index below
  rw [List.mem_range] at below
  exact agrees.2 (position + index) (by omega) (by omega)

theorem AgreesWith.symm {area other : DataArea} {first last : Nat}
    (agrees : area.AgreesWith other first last) : other.AgreesWith area first last :=
  ⟨agrees.1.symm, fun position lower upper => (agrees.2 position lower upper).symm⟩

theorem AgreesWith.mono {area other : DataArea} {first last inner : Nat}
    (agrees : area.AgreesWith other first last) (behind : first ≤ inner) :
    area.AgreesWith other inner last :=
  ⟨agrees.1, fun position lower upper => agrees.2 position (by omega) upper⟩

theorem AgreesWith.recordAt {area other : DataArea} {position last : Nat} {record : PerfRecord}
    (agrees : area.AgreesWith other position last) (found : area.recordAt position = .ok record)
    (inside : position + record.size ≤ last) : other.recordAt position = .ok record := by
  have size := recordAt_size found
  have atLeast := record.headerSize_le_size
  have header : PerfRecord.headerSize = 8 := rfl
  have claimed : area.claimedSize position = other.claimedSize position := by
    rw [claimedSize, claimedSize, agrees.read (position + 6) 2 (by omega) (by omega)]
  rw [← found, DataArea.recordAt, DataArea.recordAt, ← claimed, ← agrees.1,
    agrees.read position 4 (by omega) (by omega), agrees.read (position + 4) 2 (by omega) (by omega),
    agrees.read (position + PerfRecord.headerSize) _ (by omega) (by omega)]

theorem recordAt_body {area : DataArea} {position : Nat} {record : PerfRecord}
    (found : area.recordAt position = .ok record) :
    record.body = area.read (position + PerfRecord.headerSize) record.body.length ∧
      record.size ≤ area.size := by
  have size := recordAt_size found
  simp only [DataArea.recordAt] at found
  split at found
  · contradiction
  · injection found with same
    refine ⟨?_, by omega⟩
    subst same
    simp

theorem sample_data {area : DataArea} {position : Nat} {record : PerfRecord}
    (found : area.recordAt position = .ok record) (stated : 4 ≤ record.body.length)
    (claimed : Nat) :
    (record.body.drop 4).take claimed =
      area.read (position + PerfRecord.headerSize + 4) (min claimed (record.body.length - 4)) := by
  have body := (recordAt_body found).1
  rw [body, drop_read _ stated, take_read, ← body]

theorem delivery_stands {area : DataArea} {position : Nat} {record : PerfRecord}
    {delivery : Delivery} (found : area.recordAt position = .ok record)
    (delivered : delivery ∈ record.delivery?) :
    delivery.StandsBetween area position (position + record.size) := by
  have body := (recordAt_body found).1
  simp only [Option.mem_def, PerfRecord.delivery?] at delivered
  split at delivered
  · next sample =>
      obtain rfl := Option.some.inj delivered
      have data := sample_data found sample.2 (wordValue (record.body.take 4))
      refine ⟨position + PerfRecord.headerSize + 4, by omega, ?_, ?_⟩
      · rw [data, read_length, PerfRecord.size]
        omega
      · rw [data, read_length]
  · split at delivered
    · next lost =>
        obtain rfl := Option.some.inj delivered
        refine ⟨position + PerfRecord.headerSize + 8, by omega, ?_, ?_⟩
        · rw [PerfRecord.size]
          omega
        · rw [body, field_read lost.2]
    · contradiction

theorem walk_induction (area : DataArea) (head : Nat) {motive : Nat → Bytes → Prop}
    (reached : ∀ tail scratch, head ≤ tail → motive tail scratch)
    (corrupt : ∀ tail scratch claimed, tail < head → area.recordAt tail = .error claimed →
      motive tail scratch)
    (record : ∀ tail scratch record, tail < head → area.recordAt tail = .ok record →
      motive (tail + record.size) (area.read tail record.size) → motive tail scratch)
    (tail : Nat) (scratch : Bytes) : motive tail scratch := by
  induction distance : head - tail using Nat.strongRecOn generalizing tail scratch with
  | ind remaining ih =>
      by_cases below : tail < head
      · cases found : area.recordAt tail with
        | error claimed => exact corrupt tail scratch claimed below found
        | ok first =>
            have atLeast := first.headerSize_le_size
            simp only [PerfRecord.headerSize] at atLeast
            exact record tail scratch first below found (ih _ (by omega) _ _ rfl)
      · exact reached tail scratch (by omega)

theorem le_walk_tail (area : DataArea) (head tail : Nat) (scratch : Bytes) :
    head ≤ (area.walk head tail scratch).tail ∧ tail ≤ (area.walk head tail scratch).tail := by
  induction tail, scratch using walk_induction area head with
  | reached tail scratch reached =>
      rw [walk_of_le scratch reached]
      exact ⟨reached, Nat.le_refl _⟩
  | corrupt tail scratch claimed below found =>
      rw [walk_of_corrupt scratch below found]
      exact ⟨Nat.le_refl _, Nat.le_of_lt below⟩
  | record tail scratch record below found ih =>
      rw [walk_of_record scratch below found]
      exact ⟨ih.1, Nat.le_trans (Nat.le_add_right ..) ih.2⟩

theorem walk_tail_lt {area : DataArea} {head tail : Nat} (scratch : Bytes) (ordered : tail ≤ head) :
    (area.walk head tail scratch).tail < head + area.size := by
  have room := area.size_pos
  induction tail, scratch using walk_induction area head with
  | reached tail scratch reached =>
      rw [walk_of_le scratch reached]
      show tail < head + area.size
      omega
  | corrupt tail scratch claimed below found =>
      rw [walk_of_corrupt scratch below found]
      show head < head + area.size
      omega
  | record tail scratch record below found ih =>
      rw [walk_of_record scratch below found]
      have fits := (recordAt_body found).2
      -- only the last record can pass the head, and it fits the area
      by_cases inside : tail + record.size ≤ head
      · exact ih inside
      · rw [walk_of_le _ (by omega)]
        show tail + record.size < head + area.size
        omega

theorem walk_tail_eq_iff {area : DataArea} {head tail : Nat} (scratch : Bytes)
    (ordered : tail ≤ head) :
    (area.walk head tail scratch).tail = head ↔ ¬ area.Overruns head tail := by
  induction tail, scratch using walk_induction area head with
  | reached tail scratch reached =>
      rw [walk_of_le scratch reached]
      exact iff_of_true (Nat.le_antisymm ordered reached) (not_overruns_of_le reached)
  | corrupt tail scratch claimed below found =>
      rw [walk_of_corrupt scratch below found]
      exact iff_of_true rfl (not_overruns_of_corrupt found)
  | record tail scratch record below found ih =>
      rw [walk_of_record scratch below found, overruns_of_record below found]
      by_cases inside : tail + record.size ≤ head
      · have within : ¬ head < tail + record.size := by omega
        simpa only [within, false_or] using ih inside
      · have past : head < tail + record.size := by omega
        rw [walk_of_le _ (by omega)]
        simp only [past, true_or, not_true_eq_false, iff_false]
        omega

theorem walk_deliveries_stand (area : DataArea) (head tail : Nat) (scratch : Bytes) :
    ∀ delivery ∈ (area.walk head tail scratch).deliveries,
      delivery.StandsBetween area tail (area.walk head tail scratch).tail := by
  induction tail, scratch using walk_induction area head with
  | reached tail scratch reached => simp [walk_of_le scratch reached]
  | corrupt tail scratch claimed below found => simp [walk_of_corrupt scratch below found]
  | record tail scratch record below found ih =>
      rw [walk_of_record scratch below found]
      intro delivery member
      rcases List.mem_append.1 member with here | later
      · have stands := delivery_stands found (Option.mem_toList.1 here)
        exact stands.mono (Nat.le_refl _) (le_walk_tail ..).2
      · exact (ih delivery later).mono (Nat.le_add_right ..) (Nat.le_refl _)

theorem AgreesWith.walk_deliveries {area other : DataArea} {head tail : Nat}
    (agrees : area.AgreesWith other tail head) (scratch otherScratch : Bytes)
    (within : ¬ area.Overruns head tail) (otherWithin : ¬ other.Overruns head tail) :
    (area.walk head tail scratch).deliveries = (other.walk head tail otherScratch).deliveries := by
  induction tail, scratch using walk_induction area head generalizing otherScratch with
  | reached tail scratch reached => rw [walk_of_le scratch reached, walk_of_le otherScratch reached]
  | corrupt tail scratch claimed below found =>
      cases otherFound : other.recordAt tail with
      | error otherClaimed =>
          rw [walk_of_corrupt scratch below found, walk_of_corrupt otherScratch below otherFound]
      | ok record =>
          rw [overruns_of_record below otherFound] at otherWithin
          have same := agrees.symm.recordAt otherFound (by omega)
          rw [found] at same
          contradiction
  | record tail scratch record below found ih =>
      rw [overruns_of_record below found, not_or] at within
      have otherFound := agrees.recordAt found (by omega)
      rw [overruns_of_record below otherFound, not_or] at otherWithin
      rw [walk_of_record scratch below found, walk_of_record otherScratch below otherFound]
      have later := ih (agrees.mono (Nat.le_add_right ..)) (other.read tail record.size) within.2
        otherWithin.2
      exact congrArg (record.delivery?.toList ++ ·) later

/-- What a walk should keep to: it ends at the head, hands out only what stands in front of it, and
does so whatever stands behind it. -/
structure StaysBelow (area : DataArea) (head tail : Nat) (scratch : Bytes) : Prop where
  ends : (area.walk head tail scratch).tail = head
  stands : ∀ delivery ∈ (area.walk head tail scratch).deliveries,
    delivery.StandsBetween area tail head
  determined : ∀ other otherScratch, area.AgreesWith other tail head → ¬ other.Overruns head tail →
    (other.walk head tail otherScratch).deliveries = (area.walk head tail scratch).deliveries

/-- A walk keeps to the head exactly if no record that it comes to reaches past it. Else it ends
behind the head, by less than the size of the area. -/
theorem walk_stays_below_iff {area : DataArea} {head tail : Nat} (scratch : Bytes)
    (ordered : tail ≤ head) :
    (area.StaysBelow head tail scratch ↔ ¬ area.Overruns head tail) ∧
      (area.Overruns head tail →
        head < (area.walk head tail scratch).tail ∧
          (area.walk head tail scratch).tail < head + area.size ∧
          ∀ delivery ∈ (area.walk head tail scratch).deliveries,
            delivery.StandsBetween area tail (area.walk head tail scratch).tail) := by
  have ends : (area.walk head tail scratch).tail = head ↔ ¬ area.Overruns head tail :=
    walk_tail_eq_iff scratch ordered
  have stands := walk_deliveries_stand area head tail scratch
  refine ⟨⟨fun stays => ends.1 stays.ends, fun within => ?_⟩, fun overruns => ?_⟩
  · have reached := ends.2 within
    rw [reached] at stands
    refine ⟨reached, stands, ?_⟩
    intro other otherScratch agrees otherWithin
    exact (agrees.walk_deliveries scratch otherScratch within otherWithin).symm
  · have passed : (area.walk head tail scratch).tail ≠ head := fun same => ends.1 same overruns
    have reached := (le_walk_tail area head tail scratch).1
    exact ⟨by omega, walk_tail_lt scratch ordered, stands⟩

def longSample : PerfRecord :=
  ⟨PerfRecord.sampleKind, 0, wordBytes 4 20 ++ List.replicate 20 7⟩

def filledArea : DataArea :=
  (⟨32, ∅, by decide⟩ : DataArea).write 0 longSample.bytes

theorem filledArea_recordAt : filledArea.recordAt 0 = .ok longSample :=
  recordAt_of_read (by decide) (by decide) (read_write (by decide))

theorem filledArea_stays_below : 0 ≤ 32 ∧ filledArea.StaysBelow 32 0 [] := by
  have within : ¬ filledArea.Overruns 32 0 := by
    rw [overruns_of_record (by decide) filledArea_recordAt, not_or]
    exact ⟨by decide, not_overruns_of_le (by decide)⟩
  exact ⟨by decide, (walk_stays_below_iff [] (by decide)).1.2 within⟩

theorem filledArea_passes_head :
    0 ≤ 16 ∧ 16 ≤ 0 + filledArea.size ∧ (filledArea.walk 16 0 []).tail = 32 ∧
      (filledArea.walk 16 0 []).deliveries = [.sample (List.replicate 20 7)] ∧
      ¬ (Delivery.sample (List.replicate 20 7)).StandsBetween filledArea 0 16 := by
  refine ⟨by decide, by decide, by decide +kernel, by decide +kernel, ?_⟩
  rintro ⟨position, _, inside, _⟩
  rw [List.length_replicate] at inside
  omega

end DataArea

end KernelMaps
