import KernelMaps.Proofs.Perf.Overrun

/-!
The accesses of a walk over a data area. A walk whose every access is held against the room that
there is, and whose rounds can run out, ends like the one that assumes them to be in order, whatever
the area holds: only a record that fits the area is copied, and what it announces is cut at its end.
-/

namespace KernelMaps

def part? (bytes : Bytes) (first last : Nat) : Option Bytes :=
  if first ≤ last ∧ last ≤ bytes.length then some ((bytes.take last).drop first) else none

def wordWithin? (bytes : Bytes) (first count : Nat) : Option Nat :=
  (part? bytes first (first + count)).map wordValue

def copyOver? (buffer : Bytes) (first last : Nat) (bytes : Bytes) : Option Bytes :=
  if first ≤ last ∧ last ≤ buffer.length ∧ bytes.length = last - first then
    some (overwrite buffer first bytes)
  else none

def announced? (kind : UInt32) (size : Nat) (buffer : Bytes) : Option (Nat × List Delivery) :=
  if kind = PerfRecord.sampleKind ∧ PerfRecord.headerSize + 4 ≤ size then do
    let claimed ← wordWithin? buffer PerfRecord.headerSize 4
    let start := PerfRecord.headerSize + 4
    let data ← part? buffer start (min (start + claimed) size)
    return (1, [.sample data])
  else if kind = PerfRecord.lostKind ∧ PerfRecord.headerSize + 16 ≤ size then do
    let count ← wordWithin? buffer (PerfRecord.headerSize + 8) 8
    return (0, [.lost (UInt64.ofNat count)])
  else return (0, [])

namespace DataArea

def sliceWithin? (area : DataArea) (first last : Nat) : Option Bytes :=
  if first ≤ last ∧ last ≤ area.size then some (area.slice first (last - first)) else none

def copyWithin? (area : DataArea) (offset : Nat) (buffer : Bytes) : Option Bytes := do
  guard (offset ≤ area.size)
  let first := min (area.size - offset) buffer.length
  let front ← area.sliceWithin? offset (offset + first)
  let filled ← copyOver? buffer 0 first front
  let back ← area.sliceWithin? 0 (buffer.length - first)
  copyOver? filled first filled.length back

/-- A walk that goes no further than a number of rounds, and gives nothing where it would have to,
nor where anything is accessed that is not there. -/
def walkWithin? (area : DataArea) (head : Nat) : Nat → Nat → Bytes → Option RecordWalk
  | 0, tail, scratch => if tail < head then none else some ⟨tail, 0, [], none, scratch⟩
  | rounds + 1, tail, scratch =>
      if tail < head then do
        let offset := tail % area.size
        let header ← area.copyWithin? offset (zeroed PerfRecord.headerSize)
        let kind ← wordWithin? header 0 4
        let size ← wordWithin? header 6 2
        if size < PerfRecord.headerSize ∨ area.size < size then
          return ⟨head, 0, [], some size, scratch⟩
        else
          let record ← area.copyWithin? offset (fitted size scratch)
          let (samples, found) ← announced? (UInt32.ofNat kind) size record
          let rest ← area.walkWithin? head rounds (tail + size) record
          return { rest with
            samples := samples + rest.samples
            deliveries := found ++ rest.deliveries }
      else some ⟨tail, 0, [], none, scratch⟩

theorem part?_read (area : DataArea) {position count first last : Nat} (ordered : first ≤ last)
    (within : last ≤ count) :
    part? (area.read position count) first last =
      some (area.read (position + first) (last - first)) := by
  rw [part?, if_pos ⟨ordered, by rwa [read_length]⟩, take_read, Nat.min_eq_left within,
    drop_read area ordered]

theorem wordWithin?_read (area : DataArea) {position count first length : Nat}
    (within : first + length ≤ count) :
    wordWithin? (area.read position count) first length =
      some (wordValue (area.read (position + first) length)) := by
  rw [wordWithin?, area.part?_read (Nat.le_add_right ..) within, Nat.add_sub_cancel_left]
  rfl

theorem copyWithin?_eq_copyWrapped (area : DataArea) {offset : Nat} {buffer : Bytes}
    (inside : offset ≤ area.size) (fits : buffer.length ≤ area.size) :
    area.copyWithin? offset buffer = some (area.copyWrapped offset buffer) := by
  obtain ⟨first, part⟩ : ∃ first, min (area.size - offset) buffer.length = first := ⟨_, rfl⟩
  have front : area.sliceWithin? offset (offset + first) = some (area.slice offset first) := by
    rw [sliceWithin?, if_pos (by omega), Nat.add_sub_cancel_left]
  have filled : copyOver? buffer 0 first (area.slice offset first) =
      some (overwrite buffer 0 (area.slice offset first)) := by
    rw [copyOver?, if_pos ⟨Nat.zero_le _, by omega, by rw [slice_length]; rfl⟩]
  have length : (overwrite buffer 0 (area.slice offset first)).length = buffer.length := by
    simp only [overwrite, List.length_append, List.length_take, List.length_drop, slice_length]
    omega
  have back : area.sliceWithin? 0 (buffer.length - first) =
      some (area.slice 0 (buffer.length - first)) := by
    rw [sliceWithin?, if_pos (by omega), Nat.sub_zero]
  simp only [copyWithin?, copyWrapped, part, front, filled, back, guard, if_pos inside,
    Option.pure_def, Option.bind_eq_bind, Option.bind_some]
  rw [copyOver?, length, if_pos ⟨by omega, Nat.le_refl _, slice_length ..⟩]

theorem copyWithin?_eq_read (area : DataArea) (position : Nat) {buffer : Bytes}
    (fits : buffer.length ≤ area.size) :
    area.copyWithin? (position % area.size) buffer = some (area.read position buffer.length) := by
  have inside := Nat.le_of_lt (Nat.mod_lt position area.size_pos)
  rw [copyWithin?_eq_copyWrapped area inside fits, copyWrapped_eq_read position fits]

example : (⟨8, ∅, by decide⟩ : DataArea).copyWithin? 4 (zeroed 16) = none := by
  decide +kernel

theorem part?_sample {area : DataArea} {position : Nat} {record : PerfRecord}
    (found : area.recordAt position = .ok record) (stated : 4 ≤ record.body.length)
    (claimed : Nat) :
    part? (area.read position record.size) (PerfRecord.headerSize + 4)
        (min (PerfRecord.headerSize + 4 + claimed) record.size) =
      some ((record.body.drop 4).take claimed) := by
  have size : record.size = PerfRecord.headerSize + record.body.length := rfl
  have cut : min (PerfRecord.headerSize + 4 + claimed) record.size - (PerfRecord.headerSize + 4) =
      min claimed (record.body.length - 4) := by
    omega
  rw [area.part?_read (by omega) (Nat.min_le_right ..), cut, sample_data found stated,
    ← Nat.add_assoc]

theorem announced?_eq {area : DataArea} {position : Nat} {record : PerfRecord}
    (found : area.recordAt position = .ok record) :
    announced? record.kind record.size (area.read position record.size) =
      some (Delivery.countSamples record.delivery?.toList, record.delivery?.toList) := by
  have body := (recordAt_body found).1
  have size : record.size = PerfRecord.headerSize + record.body.length := rfl
  have sampleRoom : PerfRecord.headerSize + 4 ≤ record.size ↔ 4 ≤ record.body.length := by omega
  have lostRoom : PerfRecord.headerSize + 16 ≤ record.size ↔ 16 ≤ record.body.length := by omega
  simp only [announced?, PerfRecord.delivery?, sampleRoom, lostRoom]
  by_cases sample : record.kind = PerfRecord.sampleKind ∧ 4 ≤ record.body.length
  · have stated : wordWithin? (area.read position record.size) PerfRecord.headerSize 4 =
        some (wordValue (record.body.take 4)) := by
      rw [area.wordWithin?_read (by omega), body, take_read, Nat.min_eq_left sample.2]
    simp only [if_pos sample, stated, part?_sample found sample.2, Option.bind_eq_bind,
      Option.bind_some]
    rfl
  · by_cases lost : record.kind = PerfRecord.lostKind ∧ 16 ≤ record.body.length
    · have count : wordWithin? (area.read position record.size) (PerfRecord.headerSize + 8) 8 =
          some (wordValue (field record.body 8 8)) := by
        rw [area.wordWithin?_read (by omega), body, field_read lost.2, Nat.add_assoc]
      simp only [if_neg sample, if_pos lost, count]
      rfl
    · simp only [if_neg sample, if_neg lost]
      rfl

theorem walkWithin?_of_le {area : DataArea} {head tail : Nat} (rounds : Nat) (scratch : Bytes)
    (reached : head ≤ tail) :
    area.walkWithin? head rounds tail scratch = some ⟨tail, 0, [], none, scratch⟩ := by
  cases rounds <;> rw [walkWithin?, if_neg (Nat.not_lt.2 reached)]

theorem header_within (area : DataArea) (position : Nat) :
    area.copyWithin? (position % area.size) (zeroed PerfRecord.headerSize) =
      some (area.read position PerfRecord.headerSize) := by
  rw [copyWithin?_eq_read area position (by simpa using area.sized), zeroed_length]

theorem kind_within (area : DataArea) (position : Nat) :
    wordWithin? (area.read position PerfRecord.headerSize) 0 4 =
      some (wordValue (area.read position 4)) :=
  area.wordWithin?_read (by decide)

theorem size_within (area : DataArea) (position : Nat) :
    wordWithin? (area.read position PerfRecord.headerSize) 6 2 = some (area.claimedSize position) :=
  area.wordWithin?_read (by decide)

theorem recordAt_error_iff {area : DataArea} {position claimed : Nat} :
    area.recordAt position = .error claimed ↔
      (area.claimedSize position < PerfRecord.headerSize ∨ area.size < area.claimedSize position) ∧
        claimed = area.claimedSize position := by
  rw [recordAt]
  split
  · next refused => simp [refused, eq_comm]
  · next fits => simp [fits]

theorem walkWithin?_of_corrupt {area : DataArea} {head tail claimed : Nat} (rounds : Nat)
    (scratch : Bytes) (below : tail < head) (found : area.recordAt tail = .error claimed) :
    area.walkWithin? head (rounds + 1) tail scratch =
      some ⟨head, 0, [], some claimed, scratch⟩ := by
  obtain ⟨refused, rfl⟩ := recordAt_error_iff.1 found
  simp only [walkWithin?, if_pos below, header_within, kind_within, size_within, if_pos refused,
    Option.bind_eq_bind, Option.bind_some]
  rfl

theorem recordAt_kind {area : DataArea} {position : Nat} {record : PerfRecord}
    (found : area.recordAt position = .ok record) :
    record.kind = UInt32.ofNat (wordValue (area.read position 4)) := by
  rw [recordAt] at found
  split at found
  · contradiction
  · exact (congrArg PerfRecord.kind (Except.ok.inj found)).symm

theorem walkWithin?_of_record {area : DataArea} {head tail : Nat} {record : PerfRecord}
    (rounds : Nat) (scratch : Bytes) (below : tail < head)
    (found : area.recordAt tail = .ok record) :
    area.walkWithin? head (rounds + 1) tail scratch =
      (area.walkWithin? head rounds (tail + record.size) (area.read tail record.size)).map
        fun rest => { rest with
          samples := Delivery.countSamples record.delivery?.toList + rest.samples
          deliveries := record.delivery?.toList ++ rest.deliveries } := by
  have kind := recordAt_kind found
  have fits := (recordAt_body found).2
  have possible : ¬(record.size < PerfRecord.headerSize ∨ area.size < record.size) := by
    have atLeast := record.headerSize_le_size
    omega
  have copied : area.copyWithin? (tail % area.size) (fitted record.size scratch) =
      some (area.read tail record.size) := by
    rw [copyWithin?_eq_read area tail (by rwa [fitted_length]), fitted_length]
  simp only [walkWithin?, if_pos below, header_within, kind_within, size_within,
    ← recordAt_size found, if_neg possible, copied, ← kind, announced?_eq found,
    Option.bind_eq_bind, Option.bind_some, Option.map_eq_bind]
  rfl

theorem walkWithin?_eq_walk {area : DataArea} {head : Nat} (tail : Nat) (scratch : Bytes)
    {rounds : Nat} (enough : head - tail ≤ PerfRecord.headerSize * rounds) :
    area.walkWithin? head rounds tail scratch = some (area.walk head tail scratch) := by
  -- every round passes a header at least
  induction tail, scratch using walk_induction area head generalizing rounds with
  | reached tail scratch reached =>
      rw [walkWithin?_of_le rounds scratch reached, walk_of_le scratch reached]
  | corrupt tail scratch claimed below found =>
      cases rounds with
      | zero => omega
      | succ rounds =>
          rw [walkWithin?_of_corrupt rounds scratch below found,
            walk_of_corrupt scratch below found]
  | record tail scratch record below found ih =>
      have atLeast := record.headerSize_le_size
      cases rounds with
      | zero => omega
      | succ rounds =>
          rw [Nat.mul_succ] at enough
          rw [walkWithin?_of_record rounds scratch below found, ih (by omega),
            walk_of_record scratch below found]
          rfl

theorem walk_samples (area : DataArea) (head tail : Nat) (scratch : Bytes) :
    (area.walk head tail scratch).samples =
      Delivery.countSamples (area.walk head tail scratch).deliveries := by
  induction tail, scratch using walk_induction area head with
  | reached tail scratch reached =>
      rw [walk_of_le scratch reached]
      rfl
  | corrupt tail scratch claimed below found =>
      rw [walk_of_corrupt scratch below found]
      rfl
  | record tail scratch record below found ih =>
      rw [walk_of_record scratch below found]
      dsimp only
      rw [ih, Delivery.countSamples_append]

theorem walk_of_scratch (area : DataArea) (head tail : Nat) (scratch other : Bytes) :
    { area.walk head tail other with scratch := [] } =
      { area.walk head tail scratch with scratch := [] } := by
  by_cases below : tail < head
  · cases found : area.recordAt tail with
    | error claimed => rw [walk_of_corrupt scratch below found, walk_of_corrupt other below found]
    | ok record => rw [walk_of_record scratch below found, walk_of_record other below found]
  · have reached := Nat.not_lt.1 below
    rw [walk_of_le scratch reached, walk_of_le other reached]

/-- Whether data is what a record has behind its header and the length that it claims: as much as
that, but no more than it has room for. -/
structure SampleAt (area : DataArea) (position : Nat) (record : PerfRecord) (data : Bytes) :
    Prop where
  kind : record.kind = PerfRecord.sampleKind
  fits : data.length + PerfRecord.headerSize + 4 ≤ record.size
  length : data.length = min (wordValue (area.read (position + PerfRecord.headerSize) 4))
    (record.size - (PerfRecord.headerSize + 4))
  copied : data = area.read (position + PerfRecord.headerSize + 4) data.length

theorem sampleAt_of_delivery? {area : DataArea} {position : Nat} {record : PerfRecord}
    {data : Bytes} (found : area.recordAt position = .ok record)
    (delivered : .sample data ∈ record.delivery?) : area.SampleAt position record data := by
  have size : record.size = PerfRecord.headerSize + record.body.length := rfl
  simp only [Option.mem_def, PerfRecord.delivery?] at delivered
  split at delivered
  · next sample =>
      have same := Delivery.sample.inj (Option.some.inj delivered)
      rw [sample_data found sample.2] at same
      have claim : record.body.take 4 = area.read (position + PerfRecord.headerSize) 4 := by
        rw [(recordAt_body found).1, take_read, Nat.min_eq_left sample.2]
      rw [claim] at same
      have length := congrArg List.length same
      rw [read_length] at length
      refine ⟨sample.1, by omega, by omega, ?_⟩
      rw [← length, same]
  · split at delivered <;> simp at delivered

theorem walk_sample {area : DataArea} {head : Nat} {data : Bytes} (tail : Nat) (scratch : Bytes)
    (delivered : .sample data ∈ (area.walk head tail scratch).deliveries) :
    ∃ position record, area.Reaches head tail position record ∧
      area.SampleAt position record data := by
  induction tail, scratch using walk_induction area head with
  | reached tail scratch reached => simp [walk_of_le scratch reached] at delivered
  | corrupt tail scratch claimed below found =>
      simp [walk_of_corrupt scratch below found] at delivered
  | record tail scratch record below found ih =>
      rw [walk_of_record scratch below found] at delivered
      rcases List.mem_append.1 delivered with here | later
      · exact ⟨tail, record, .here below found,
          sampleAt_of_delivery? found (Option.mem_toList.1 here)⟩
      · obtain ⟨position, other, reaches, sample⟩ := ih later
        exact ⟨position, other, .next below found reaches, sample⟩

end DataArea

namespace KernelRing

def walkWithin? (ring : KernelRing) (rounds : Nat) : Option RecordWalk :=
  match ring.area with
  | none => some ⟨ring.head, 0, [], none, ring.scratch⟩
  | some area => area.walkWithin? ring.head rounds ring.tail ring.scratch

/-- What a walk keeps to on any bytes: its accesses are in order in as many rounds as headers fit
between the positions, it counts what it hands out, no sample is longer than its record, and nothing
is left of what the scratch buffer held. -/
structure WalksSafely (ring : KernelRing) : Prop where
  within : ring.walkWithin? ((ring.head - ring.tail + 7) / 8) = some ring.walk
  idle : ring.head ≤ ring.tail → ring.walkWithin? 0 = some ring.walk
  counted : ring.walk.samples = Delivery.countSamples ring.walk.deliveries
  cut : ∀ data, .sample data ∈ ring.walk.deliveries →
    ∃ area position record, ring.area = some area ∧
      area.Reaches ring.head ring.tail position record ∧ area.SampleAt position record data
  unaided : ∀ scratch, { ({ ring with scratch }).walk with scratch := [] } =
    { ring.walk with scratch := [] }

theorem walks_safely (ring : KernelRing) : ring.WalksSafely := by
  obtain ⟨area, head, tail, scratch⟩ := ring
  cases area with
  | none => exact ⟨rfl, fun _ => rfl, rfl, fun _ => nofun, fun _ => rfl⟩
  | some area =>
      refine ⟨?_, ?_, ?_, ?_, ?_⟩
      · refine area.walkWithin?_eq_walk tail scratch ?_
        dsimp only [PerfRecord.headerSize]
        omega
      · intro reached
        exact area.walkWithin?_eq_walk tail scratch (Nat.le_of_eq (Nat.sub_eq_zero_of_le reached))
      · exact area.walk_samples head tail scratch
      · intro data delivered
        obtain ⟨position, record, reaches, sample⟩ := DataArea.walk_sample tail scratch delivered
        exact ⟨area, position, record, rfl, reaches, sample⟩
      · exact fun other => area.walk_of_scratch head tail scratch other

def boastfulRing : KernelRing :=
  { area := some ((⟨16, ∅, by decide⟩ : DataArea).write 0
      (wordBytes 4 9 ++ wordBytes 2 0 ++ wordBytes 2 16 ++ wordBytes 4 1000 ++ [1, 2, 3, 4]))
    head := 16 }

theorem boastful_sample_cut :
    boastfulRing.walkWithin? 2 = some boastfulRing.walk ∧
      .sample [1, 2, 3, 4] ∈ boastfulRing.walk.deliveries ∧
      ∃ area position record, boastfulRing.area = some area ∧ area.Reaches 16 0 position record ∧
        area.SampleAt position record [1, 2, 3, 4] := by
  have delivered : .sample [1, 2, 3, 4] ∈ boastfulRing.walk.deliveries := by decide +kernel
  exact ⟨boastfulRing.walks_safely.within, delivered, boastfulRing.walks_safely.cut _ delivered⟩

end KernelRing

end KernelMaps
