import KernelMaps.Perf.Ring
import Mathlib.Data.List.Basic

/-!
Whole runs of a ring. The kernel appends records while there is room for them, and drains happen at
any time in between. The bytes from the tail up to the head are then always whole records one after
the other, so that every drain hands out what was written since the one before.
-/

namespace KernelMaps

theorem mod_ne_of_near {first second size : Nat} (below : first < second)
    (near : second < first + size) : second % size ≠ first % size := by
  intro same
  have divides : size ∣ second - first :=
    Nat.dvd_of_mod_eq_zero (Nat.sub_mod_eq_zero_of_mod_eq same)
  have zero := Nat.eq_zero_of_dvd_of_lt divides (by omega)
  omega

namespace DataArea

@[simp] theorem write_size (area : DataArea) (position : Nat) (bytes : Bytes) :
    (area.write position bytes).size = area.size := by
  induction bytes generalizing area position with
  | nil => rfl
  | cons byte rest ih => rw [write, ih, setByte]

theorem byteAt_write_of_ne {area : DataArea} {start position : Nat} {bytes : Bytes}
    (apart : ∀ index < bytes.length, (start + index) % area.size ≠ position % area.size) :
    (area.write start bytes).byteAt position = area.byteAt position := by
  induction bytes generalizing area start with
  | nil => rfl
  | cons byte rest ih =>
      have here := apart 0 (by simp)
      rw [write, ih, byteAt_setByte, if_neg (by simpa using here)]
      intro index below
      have later := apart (index + 1) (by simpa using below)
      rwa [Nat.add_comm index, ← Nat.add_assoc] at later

theorem read_write_of_before {area : DataArea} {start position count : Nat} {bytes : Bytes}
    (before : position + count ≤ start) (near : start + bytes.length ≤ position + area.size) :
    (area.write start bytes).read position count = area.read position count := by
  simp only [read]
  apply List.map_congr_left
  intro index below
  rw [List.mem_range] at below
  apply byteAt_write_of_ne
  intro offset inside
  exact mod_ne_of_near (by omega) (by omega)

theorem read_write {area : DataArea} {start : Nat} {bytes : Bytes}
    (fits : bytes.length ≤ area.size) :
    (area.write start bytes).read start bytes.length = bytes := by
  induction bytes generalizing area start with
  | nil => rfl
  | cons byte rest ih =>
      have first : ((area.setByte start byte).write (start + 1) rest).byteAt start = byte := by
        rw [byteAt_write_of_ne, byteAt_setByte, if_pos rfl]
        intro index below
        rw [List.length_cons] at fits
        exact mod_ne_of_near (by omega) (by simp only [setByte]; omega)
      rw [List.length_cons, Nat.add_comm, read_add, write, ih]
      · simpa [read] using first
      · simp only [setByte, List.length_cons] at fits ⊢
        omega

theorem recordAt_of_read {area : DataArea} {position : Nat} {record : PerfRecord}
    (small : record.size < wordRange 2) (fits : record.size ≤ area.size)
    (stored : area.read position record.size = record.bytes) :
    area.recordAt position = .ok record := by
  have length : record.size - PerfRecord.headerSize = record.body.length := by
    rw [PerfRecord.size, Nat.add_sub_cancel_left]
  have pieces : area.read position 4 ++ area.read (position + 4) 2 ++ area.read (position + 6) 2 ++
      area.read (position + PerfRecord.headerSize) record.body.length = record.bytes := by
    rw [← stored, PerfRecord.size, read_add, show PerfRecord.headerSize = 4 + 2 + 2 from rfl,
      read_add, read_add]
  simp only [PerfRecord.bytes] at pieces
  obtain ⟨pieces, body⟩ := List.append_inj pieces (by simp)
  obtain ⟨pieces, size⟩ := List.append_inj pieces (by simp)
  obtain ⟨kind, misc⟩ := List.append_inj pieces (by simp)
  have claimed : area.claimedSize position = record.size := by
    rw [claimedSize, size, wordValue_wordBytes, Nat.mod_eq_of_lt small]
  have atLeast := record.headerSize_le_size
  have kindBound : record.kind.toNat < wordRange 4 := record.kind.toNat_lt
  have miscBound : record.misc.toNat < wordRange 2 := record.misc.toNat_lt
  rw [recordAt, claimed, if_neg (by omega), kind, misc, length, body, wordValue_wordBytes,
    wordValue_wordBytes, Nat.mod_eq_of_lt kindBound, Nat.mod_eq_of_lt miscBound,
    UInt32.ofNat_toNat, UInt16.ofNat_toNat]

end DataArea

def stream (records : List PerfRecord) : Bytes :=
  records.flatMap PerfRecord.bytes

theorem stream_append (first second : List PerfRecord) :
    stream (first ++ second) = stream first ++ stream second :=
  List.flatMap_append

@[simp] theorem stream_singleton (record : PerfRecord) : stream [record] = record.bytes :=
  List.flatMap_singleton ..

/-- A walk over whole records that stand one after the other hands out what each of them says. -/
theorem DataArea.walk_of_stream {area : DataArea} {tail : Nat} {records : List PerfRecord}
    (scratch : Bytes) (small : ∀ record ∈ records, record.size < wordRange 2)
    (fits : (stream records).length ≤ area.size)
    (stored : area.read tail (stream records).length = stream records) :
    ∃ last, area.walk (tail + (stream records).length) tail scratch =
      ⟨tail + (stream records).length,
        Delivery.countSamples (records.filterMap PerfRecord.delivery?),
        records.filterMap PerfRecord.delivery?, none, last⟩ := by
  induction records generalizing tail scratch with
  | nil => exact ⟨scratch, walk_of_le scratch (Nat.le_refl _)⟩
  | cons record rest ih =>
      have atLeast := record.headerSize_le_size
      simp only [PerfRecord.headerSize] at atLeast
      rw [← List.singleton_append, stream_append, stream_singleton, List.length_append,
        record.bytes_length] at fits stored ⊢
      rw [read_add] at stored
      obtain ⟨first, others⟩ := List.append_inj stored (by simp [record.bytes_length])
      have found := recordAt_of_read (small record List.mem_cons_self) (by omega) first
      -- behind a record the scratch buffer is its bytes, so the walk goes on from any buffer
      obtain ⟨last, walked⟩ := ih (area.read tail record.size)
        (fun other member => small other (List.mem_cons_of_mem _ member)) (by omega) others
      have content : [record].filterMap PerfRecord.delivery? = record.delivery?.toList := by
        cases found : record.delivery? <;> simp [found]
      refine ⟨last, ?_⟩
      rw [walk_of_record scratch (by omega) found, ← Nat.add_assoc, walked, List.filterMap_append,
        Delivery.countSamples_append, content]

/-- What the kernel writes. A sample has the length of its data in front of it and can be padded
behind; a count of lost samples stands behind an identifier, and more can follow it. Records of
other kinds are of no interest to a reader. -/
inductive Emission where
  | sample (misc : UInt16) (data padding : Bytes)
  | lost (misc : UInt16) (identifier count : UInt64) (rest : Bytes)
  | other (record : PerfRecord)
      (silent : record.kind ≠ PerfRecord.sampleKind ∧ record.kind ≠ PerfRecord.lostKind)

namespace Emission

def record : Emission → PerfRecord
  | sample misc data padding =>
      ⟨PerfRecord.sampleKind, misc, wordBytes 4 data.length ++ data ++ padding⟩
  | lost misc identifier count rest =>
      ⟨PerfRecord.lostKind, misc, wordBytes 8 identifier.toNat ++ wordBytes 8 count.toNat ++ rest⟩
  | other record _ => record

def delivery? : Emission → Option Delivery
  | sample _ data _ => some (.sample data)
  | lost _ _ count _ => some (.lost count)
  | other .. => none

theorem record_delivery? {emission : Emission} (small : emission.record.size < wordRange 2) :
    emission.record.delivery? = emission.delivery? := by
  cases emission with
  | sample misc data padding =>
      have short : data.length < wordRange 4 := by
        have wider : wordRange 2 < wordRange 4 := by decide
        simp only [record, PerfRecord.size, List.length_append] at small
        omega
      have length : wordValue (wordBytes 4 data.length) = data.length := by
        rw [wordValue_wordBytes, Nat.mod_eq_of_lt short]
      rw [record, delivery?, PerfRecord.delivery?, if_pos ⟨rfl, by simp⟩, List.append_assoc,
        List.take_left' (wordBytes_length ..), List.drop_left' (wordBytes_length ..), length,
        List.take_left' rfl]
  | lost misc identifier count rest =>
      have value : wordValue (wordBytes 8 count.toNat) = count.toNat := by
        rw [wordValue_wordBytes, Nat.mod_eq_of_lt (show _ < wordRange 8 from count.toNat_lt)]
      rw [record, delivery?, PerfRecord.delivery?, if_neg (by simp [PerfRecord.lostKind,
        PerfRecord.sampleKind]), if_pos ⟨rfl, by simp; omega⟩, field, List.append_assoc,
        List.drop_left' (wordBytes_length ..), fitted, List.take_left' (wordBytes_length ..)]
      simp [value]
  | other record silent =>
      rw [Emission.record, delivery?, PerfRecord.delivery?, if_neg fun held => silent.1 held.1,
        if_neg fun held => silent.2 held.1]

end Emission

inductive RingEvent where
  | write (emission : Emission)
  | drain

def RingEvent.isDrain : RingEvent → Bool
  | write _ => false
  | drain => true

def drainedEmissions : List RingEvent → List Emission
  | [] => []
  | .write emission :: rest =>
      if rest.any RingEvent.isDrain then emission :: drainedEmissions rest else []
  | .drain :: rest => drainedEmissions rest

theorem drainedEmissions_of_no_drain {events : List RingEvent}
    (none : events.any RingEvent.isDrain = false) : drainedEmissions events = [] := by
  cases events with
  | nil => rfl
  | cons event rest =>
      rw [List.any_cons, Bool.or_eq_false_iff] at none
      cases event with
      | write emission => rw [drainedEmissions, none.2, if_neg Bool.false_ne_true]
      | drain => exact absurd none.1 (by decide)

namespace KernelRing

/-- Whether a record can be appended: a header can state its size, and the record takes nothing that
was not drained yet. -/
def Admits (ring : KernelRing) (record : PerfRecord) : Prop :=
  record.size < wordRange 2 ∧
    ∃ area, ring.area = some area ∧ ring.head + record.size ≤ ring.tail + area.size

def Admissible (ring : KernelRing) : List RingEvent → Prop
  | [] => True
  | .write emission :: rest =>
      ring.Admits emission.record ∧ (ring.append emission.record).Admissible rest
  | .drain :: rest => ring.drain.2.Admissible rest

def drains (ring : KernelRing) : List RingEvent → List (Drained × KernelRing)
  | [] => []
  | .write emission :: rest => (ring.append emission.record).drains rest
  | .drain :: rest => ring.drain :: ring.drain.2.drains rest

/-- What stands between the tail and the head are these records and nothing else. -/
structure Holds (ring : KernelRing) (records : List PerfRecord) : Prop where
  small : ∀ record ∈ records, record.size < wordRange 2
  head : ring.head = ring.tail + (stream records).length
  stored : ∃ area, ring.area = some area ∧ (stream records).length ≤ area.size ∧
    area.read ring.tail (stream records).length = stream records

theorem Holds.append {ring : KernelRing} {records : List PerfRecord} {record : PerfRecord}
    (holds : ring.Holds records) (admitted : ring.Admits record) :
    (ring.append record).Holds (records ++ [record]) := by
  obtain ⟨area, mapped, fits, stored⟩ := holds.stored
  obtain ⟨small, _, same, room⟩ := admitted
  obtain rfl := Option.some.inj (mapped.symm.trans same)
  have head := holds.head
  have written : (ring.append record).area = some (area.write ring.head record.bytes) := by
    simp [KernelRing.append, write, mapped]
  have kept : (area.write ring.head record.bytes).read ring.tail (stream records).length =
      stream records := by
    rw [DataArea.read_write_of_before (by omega) (by rw [record.bytes_length]; omega), stored]
  have added : (area.write ring.head record.bytes).read ring.head record.bytes.length =
      record.bytes :=
    DataArea.read_write (by rw [record.bytes_length]; omega)
  constructor
  · intro other member
    rcases List.mem_append.1 member with old | new
    · exact holds.small other old
    · exact List.mem_singleton.1 new ▸ small
  · rw [stream_append, stream_singleton, List.length_append, record.bytes_length, ← Nat.add_assoc]
    exact congrArg (· + record.size) head
  · refine ⟨_, written, ?_, ?_⟩
    · rw [stream_append, stream_singleton, List.length_append, record.bytes_length,
        DataArea.write_size]
      omega
    · rw [stream_append, stream_singleton, List.length_append, DataArea.read_add]
      show DataArea.read _ ring.tail _ ++ DataArea.read _ (ring.tail + _) _ = _
      rw [← head, kept, added]

theorem Holds.drain {ring : KernelRing} {records : List PerfRecord} (holds : ring.Holds records) :
    ring.drain.1 = {
        deliveries := records.filterMap PerfRecord.delivery?
        samples := Delivery.countSamples (records.filterMap PerfRecord.delivery?) } ∧
      ring.drain.2.tail = ring.drain.2.head ∧ ring.drain.2.Holds [] := by
  obtain ⟨area, mapped, fits, stored⟩ := holds.stored
  obtain ⟨last, walked⟩ := DataArea.walk_of_stream ring.scratch holds.small fits stored
  rw [← holds.head] at walked
  have drained : ring.walk = area.walk ring.head ring.tail ring.scratch := by
    rw [KernelRing.walk, mapped]
  simp only [KernelRing.drain, drained, walked]
  exact ⟨rfl, trivial, by simp, rfl, area, mapped, Nat.zero_le _, rfl⟩

theorem Holds.deliveries {ring : KernelRing} {emissions : List Emission} {events : List RingEvent}
    (holds : ring.Holds (emissions.map Emission.record)) (admissible : ring.Admissible events) :
    (ring.drains events).flatMap (fun drain => drain.1.deliveries) =
      (if events.any RingEvent.isDrain then emissions.filterMap Emission.delivery? else []) ++
        (drainedEmissions events).filterMap Emission.delivery? := by
  induction events generalizing ring emissions with
  | nil => rfl
  | cons event rest ih =>
      cases event with
      | write emission =>
          have appended := holds.append admissible.1
          rw [← List.map_singleton, ← List.map_append] at appended
          rw [drains, ih appended admissible.2, drainedEmissions]
          simp only [List.any_cons, RingEvent.isDrain, Bool.false_or]
          split
          · rw [List.filterMap_append, List.append_assoc, ← List.filterMap_append,
              List.singleton_append]
          · next none =>
              rw [drainedEmissions_of_no_drain (by simpa using none)]
      | drain =>
          obtain ⟨found, _, emptied⟩ := holds.drain
          have content : (emissions.map Emission.record).filterMap PerfRecord.delivery? =
              emissions.filterMap Emission.delivery? := by
            rw [List.filterMap_map]
            refine List.filterMap_congr fun emission member => ?_
            exact Emission.record_delivery? (holds.small _ (List.mem_map_of_mem member))
          rw [drains, List.flatMap_cons, @ih _ [] emptied admissible, found, content,
            drainedEmissions]
          simp [RingEvent.isDrain]

theorem Holds.each_drain {ring : KernelRing} {records : List PerfRecord} {events : List RingEvent}
    (holds : ring.Holds records) (admissible : ring.Admissible events) :
    ∀ drain ∈ ring.drains events, drain.2.tail = drain.2.head ∧
      drain.1.samples = (drain.1.deliveries.filterMap Delivery.sample?).length ∧
      drain.1.lines = [] ∧ drain.1.failure = none := by
  induction events generalizing ring records with
  | nil =>
      intro drain member
      exact absurd member List.not_mem_nil
  | cons event rest ih =>
      cases event with
      | write emission => exact ih (holds.append admissible.1) admissible.2
      | drain =>
          obtain ⟨found, published, emptied⟩ := holds.drain
          intro drain member
          rcases List.mem_cons.1 member with rfl | later
          · rw [found]
            exact ⟨published, rfl, rfl, rfl⟩
          · exact ih emptied admissible drain later

/-- Over a whole run from an empty ring on, the drains hand out what was written before the last of
them, each record once and in order. Every drain publishes the head and counts its samples. -/
theorem drains_deliver_written {ring : KernelRing} {area : DataArea} {events : List RingEvent}
    (mapped : ring.area = some area) (empty : ring.head = ring.tail)
    (admissible : ring.Admissible events) :
    (ring.drains events).flatMap (fun drain => drain.1.deliveries) =
        (drainedEmissions events).filterMap Emission.delivery? ∧
      ∀ drain ∈ ring.drains events, drain.2.tail = drain.2.head ∧
        drain.1.samples = (drain.1.deliveries.filterMap Delivery.sample?).length ∧
        drain.1.lines = [] ∧ drain.1.failure = none := by
  have holds : ring.Holds (([] : List Emission).map Emission.record) :=
    ⟨by simp, empty, area, mapped, Nat.zero_le _, rfl⟩
  refine ⟨?_, holds.each_drain admissible⟩
  rw [holds.deliveries admissible]
  split <;> rfl

def nearTheEnd : KernelRing :=
  { area := some ⟨24, ∅, by decide⟩, head := 21, tail := 21, scratch := [7, 7, 7] }

def fillings : List RingEvent :=
  [.write (.sample 5 [1, 2, 3] [0]), .write (.other ⟨17, 0, []⟩ (by decide)), .drain,
    .write (.lost 0 77 600 []), .drain, .write (.sample 0 [9] [])]

theorem fillings_delivered :
    nearTheEnd.Admissible fillings ∧
      (nearTheEnd.drains fillings).flatMap (fun drain => drain.1.deliveries) =
        [.sample [1, 2, 3], .lost 600] := by
  have admissible : nearTheEnd.Admissible fillings := by
    refine ⟨⟨by decide, _, rfl, by decide⟩, ⟨by decide, _, rfl, by decide⟩, ?_, ?_, trivial⟩
    · exact ⟨by decide, _, rfl, by decide +kernel⟩
    · exact ⟨by decide, _, rfl, by decide +kernel⟩
  refine ⟨admissible, ?_⟩
  rw [(drains_deliver_written rfl rfl admissible).1]
  rfl

end KernelRing

end KernelMaps
