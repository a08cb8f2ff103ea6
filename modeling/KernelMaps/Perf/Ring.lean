import KernelMaps.Errno
import KernelMaps.Log
import KernelMaps.Perf.Record
import Std.Data.ExtTreeMap

/-!
A perf ring in memory: a data area that is written and read modulo its size, and two positions
that only grow. Draining takes the records from the tail up to the head; a record with a size that
cannot be one gives up everything before the head. A record is copied to a scratch buffer first, in
two pieces if it goes past the end of the area. Areas can be far larger than what is ever written
to them, so that only written bytes are kept.
-/

namespace KernelMaps

/-- The memory of a ring, with room for one header at least. Bytes that were never written are
zero. -/
structure DataArea where
  size : Nat
  written : Std.ExtTreeMap Nat UInt8
  sized : PerfRecord.headerSize ≤ size

namespace DataArea

def byteAt (area : DataArea) (position : Nat) : UInt8 :=
  area.written.getD (position % area.size) 0

/-- The bytes from a position on, going on at the start behind the last one. -/
def read (area : DataArea) (position count : Nat) : Bytes :=
  (List.range count).map fun index => area.byteAt (position + index)

def setByte (area : DataArea) (position : Nat) (byte : UInt8) : DataArea :=
  { area with written := area.written.insert (position % area.size) byte }

def write (area : DataArea) (position : Nat) : Bytes → DataArea
  | [] => area
  | byte :: rest => (area.setByte position byte).write (position + 1) rest

def slice (area : DataArea) (offset count : Nat) : Bytes :=
  (List.range count).map fun index => area.written.getD (offset + index) 0

/-- Fills a buffer with the bytes from an offset on, first those up to the end of the area and then
those from its start. -/
def copyWrapped (area : DataArea) (offset : Nat) (buffer : Bytes) : Bytes :=
  let first := min (area.size - offset) buffer.length
  overwrite (overwrite buffer 0 (area.slice offset first)) first
    (area.slice 0 (buffer.length - first))

def claimedSize (area : DataArea) (position : Nat) : Nat :=
  wordValue (area.read (position + 6) 2)

def recordAt (area : DataArea) (position : Nat) : Except Nat PerfRecord :=
  let claimed := area.claimedSize position
  if claimed < PerfRecord.headerSize ∨ area.size < claimed then .error claimed
  else .ok {
    kind := UInt32.ofNat (wordValue (area.read position 4))
    misc := UInt16.ofNat (wordValue (area.read (position + 4) 2))
    body := area.read (position + PerfRecord.headerSize) (claimed - PerfRecord.headerSize) }

/-- Copies the record at a position to the scratch buffer, which gets the size of the record, and
takes it from there. The buffer stays as it is if no record has the claimed size. -/
def decodeAt (area : DataArea) (position : Nat) (scratch : Bytes) : Except Nat PerfRecord × Bytes :=
  let offset := position % area.size
  let header := area.copyWrapped offset (zeroed PerfRecord.headerSize)
  let claimed := wordValue (field header 6 2)
  if claimed < PerfRecord.headerSize ∨ area.size < claimed then (.error claimed, scratch)
  else
    let bytes := area.copyWrapped offset (fitted claimed scratch)
    (.ok {
      kind := UInt32.ofNat (wordValue (field header 0 4))
      misc := UInt16.ofNat (wordValue (field header 4 2))
      body := bytes.drop PerfRecord.headerSize }, bytes)

theorem size_pos (area : DataArea) : 0 < area.size :=
  Nat.lt_of_lt_of_le (by decide) area.sized

theorem byteAt_setByte (area : DataArea) (position other : Nat) (byte : UInt8) :
    (area.setByte position byte).byteAt other =
      if position % area.size = other % area.size then byte else area.byteAt other := by
  simp [byteAt, setByte, Std.ExtTreeMap.getD_insert]

@[simp] theorem read_length (area : DataArea) (position count : Nat) :
    (area.read position count).length = count := by
  simp [read]

@[simp] theorem slice_length (area : DataArea) (offset count : Nat) :
    (area.slice offset count).length = count := by
  simp [slice]

theorem read_add (area : DataArea) (position first second : Nat) :
    area.read position (first + second) =
      area.read position first ++ area.read (position + first) second := by
  simp only [read, List.range_add, List.map_append, List.map_map]
  congr 2
  funext index
  simp only [Function.comp, Nat.add_assoc]

theorem field_read {area : DataArea} {position count offset length : Nat}
    (inside : offset + length ≤ count) :
    field (area.read position count) offset length = area.read (position + offset) length := by
  obtain ⟨rest, rfl⟩ := Nat.exists_eq_add_of_le inside
  have front : (area.read position offset).length = offset := read_length ..
  have middle : (area.read (position + offset) length).length = length := read_length ..
  rw [read_add, read_add, field, List.append_assoc, List.drop_append_of_le_length (by omega),
    List.drop_of_length_le (by omega), List.nil_append, fitted, List.take_append_of_le_length
    (by omega), List.take_of_length_le (by omega)]
  simp

theorem slice_eq_read {area : DataArea} {offset count : Nat} (inside : offset + count ≤ area.size) :
    area.slice offset count = area.read offset count := by
  simp only [slice, read]
  apply List.map_congr_left
  intro index below
  rw [List.mem_range] at below
  rw [byteAt, Nat.mod_eq_of_lt (by omega)]

theorem read_mod (area : DataArea) (position count : Nat) :
    area.read (position % area.size) count = area.read position count := by
  simp only [read, byteAt, Nat.mod_add_mod]

theorem read_add_size (area : DataArea) (position count : Nat) :
    area.read (position + area.size) count = area.read position count := by
  rw [← read_mod, Nat.add_mod_right, read_mod]

theorem copyWrapped_eq_read {area : DataArea} {buffer : Bytes} (position : Nat)
    (fits : buffer.length ≤ area.size) :
    area.copyWrapped (position % area.size) buffer = area.read position buffer.length := by
  have below := Nat.mod_lt position area.size_pos
  rw [← area.read_mod position]
  generalize position % area.size = offset at below ⊢
  simp only [copyWrapped, overwrite, slice_length, List.take_zero, List.nil_append, Nat.zero_add]
  by_cases whole : buffer.length ≤ area.size - offset
  · rw [Nat.min_eq_right whole, slice_eq_read (by omega)]
    simp [slice]
  · obtain ⟨rest, split⟩ := Nat.exists_eq_add_of_le (show area.size - offset ≤ buffer.length by omega)
    have wrapped : area.read (offset + (area.size - offset)) rest = area.read 0 rest := by
      rw [← area.read_add_size 0]
      congr 1
      omega
    rw [Nat.min_eq_left (by omega), split, Nat.add_sub_cancel_left, slice_eq_read (by omega),
      slice_eq_read (by omega), read_add, wrapped, List.take_left' (read_length ..),
      List.drop_of_length_le (by simp; omega)]
    simp

theorem recordAt_size {area : DataArea} {position : Nat} {record : PerfRecord}
    (found : area.recordAt position = .ok record) : record.size = area.claimedSize position := by
  simp only [recordAt] at found
  split at found
  · contradiction
  · injection found with same
    subst same
    simp only [PerfRecord.size, read_length]
    omega

/-- Decoding gives the record at the position whatever the scratch buffer holds, and leaves the
bytes of the record in it. -/
theorem decodeAt_eq (area : DataArea) (position : Nat) (scratch : Bytes) :
    area.decodeAt position scratch =
      match area.recordAt position with
      | .error claimed => (.error claimed, scratch)
      | .ok record => (.ok record, area.read position record.size) := by
  have header : area.copyWrapped (position % area.size) (zeroed PerfRecord.headerSize) =
      area.read position PerfRecord.headerSize := by
    rw [copyWrapped_eq_read _ (by simpa using area.sized), zeroed_length]
  have claim : wordValue (field (area.read position PerfRecord.headerSize) 6 2) =
      area.claimedSize position := by
    rw [field_read (by decide), claimedSize]
  simp only [decodeAt, recordAt, header, claim]
  split
  · rfl
  · next fits =>
      obtain ⟨rest, split⟩ := Nat.exists_eq_add_of_le
        (show PerfRecord.headerSize ≤ area.claimedSize position by omega)
      rw [field_read (by decide), field_read (by decide),
        copyWrapped_eq_read _ (by rw [fitted_length]; omega), fitted_length, split,
        Nat.add_sub_cancel_left, read_add, List.drop_left' (read_length ..)]
      simp [PerfRecord.size, read_add]

end DataArea

/-- What a walk over records finds: the position behind it, how many samples it counted, everything
it hands out, and the size that stopped it. The scratch buffer is kept for the next walk. -/
structure RecordWalk where
  tail : Nat
  samples : Nat
  deliveries : List Delivery
  corrupt : Option Nat
  scratch : Bytes
  deriving DecidableEq

namespace DataArea

/-- Walks on from a tail; `before` is what was found so far, newest first, and `samples` counts the
samples in it. -/
def walkFrom (area : DataArea) (head tail : Nat) (scratch : Bytes) (samples : Nat)
    (before : List Delivery) : RecordWalk :=
  if tail < head then
    match area.decodeAt tail scratch with
    | (.error claimed, scratch) => ⟨head, samples, before.reverse, some claimed, scratch⟩
    | (.ok record, scratch) =>
        let found := record.delivery?.toList
        area.walkFrom head (tail + record.size) scratch (samples + Delivery.countSamples found)
          (found ++ before)
  else ⟨tail, samples, before.reverse, none, scratch⟩
termination_by head - tail
decreasing_by
  have atLeast := record.headerSize_le_size
  simp only [PerfRecord.headerSize] at atLeast
  omega

def walk (area : DataArea) (head tail : Nat) (scratch : Bytes) : RecordWalk :=
  area.walkFrom head tail scratch 0 []

theorem walkFrom_eq (area : DataArea) (head tail : Nat) (scratch : Bytes) (samples : Nat)
    (before : List Delivery) :
    area.walkFrom head tail scratch samples before =
      { area.walk head tail scratch with
        samples := samples + (area.walk head tail scratch).samples
        deliveries := before.reverse ++ (area.walk head tail scratch).deliveries } := by
  unfold walk
  induction bound : head - tail using Nat.strongRecOn generalizing tail scratch samples before with
  | ind remaining ih =>
      unfold walkFrom
      split
      · next below =>
          split
          · simp
          · next record _ found =>
              have atLeast := record.headerSize_le_size
              simp only [PerfRecord.headerSize] at atLeast
              have shorter : head - (tail + record.size) < remaining := by omega
              dsimp only
              rw [ih _ shorter _ _ _ _ rfl,
                ih _ shorter _ _ (0 + Delivery.countSamples record.delivery?.toList)
                  (record.delivery?.toList ++ []) rfl]
              simp [Nat.add_assoc]
      · simp

theorem walk_of_record {area : DataArea} {head tail : Nat} {record : PerfRecord} (scratch : Bytes)
    (below : tail < head) (found : area.recordAt tail = .ok record) :
    area.walk head tail scratch =
      let rest := area.walk head (tail + record.size) (area.read tail record.size)
      { rest with
        samples := Delivery.countSamples record.delivery?.toList + rest.samples
        deliveries := record.delivery?.toList ++ rest.deliveries } := by
  rw [walk, walkFrom, if_pos below, decodeAt_eq, found]
  simp only [walkFrom_eq, List.append_nil, Nat.zero_add]
  cases record.delivery? <;> rfl

theorem walk_of_corrupt {area : DataArea} {head tail claimed : Nat} (scratch : Bytes)
    (below : tail < head) (found : area.recordAt tail = .error claimed) :
    area.walk head tail scratch = ⟨head, 0, [], some claimed, scratch⟩ := by
  rw [walk, walkFrom, if_pos below, decodeAt_eq, found]
  rfl

theorem walk_of_le {area : DataArea} {head tail : Nat} (scratch : Bytes) (reached : head ≤ tail) :
    area.walk head tail scratch = ⟨tail, 0, [], none, scratch⟩ := by
  rw [walk, walkFrom, if_neg (Nat.not_lt.2 reached)]
  rfl

end DataArea

/-- What one drain of a ring brought, how many samples it says to have handed out, what it logged,
and the failure that cut it short. -/
structure Drained where
  deliveries : List Delivery
  samples : Nat
  lines : List LogLine := []
  failure : Option Errno := none
  deriving DecidableEq

class RingContent (ρ : Type) where
  drain : ρ → Drained × ρ
  /-- Whether the ring asks for a drain, which a drain that was cut short leaves it doing. -/
  ready : ρ → Bool
  holds : ρ → Bool

structure KernelRing where
  area : Option DataArea
  head : Nat := 0
  tail : Nat := 0
  scratch : Bytes := []

namespace KernelRing

def pageSize : Nat := 4096

def empty (pages : Nat) : KernelRing :=
  if sized : PerfRecord.headerSize ≤ pageSize * pages then
    { area := some ⟨pageSize * pages, ∅, sized⟩ }
  else { area := none }

def write (ring : KernelRing) (position : Nat) (bytes : Bytes) : KernelRing :=
  { ring with area := ring.area.map fun area => area.write position bytes }

def append (ring : KernelRing) (record : PerfRecord) : KernelRing :=
  { ring.write ring.head record.bytes with head := ring.head + record.size }

def walk (ring : KernelRing) : RecordWalk :=
  match ring.area with
  | none => ⟨ring.head, 0, [], none, ring.scratch⟩
  | some area => area.walk ring.head ring.tail ring.scratch

def drain (ring : KernelRing) : Drained × KernelRing :=
  let found := ring.walk
  let lines := found.corrupt.toList.map fun claimed =>
    LogLine.warn s!"corrupt perf record of {claimed} bytes, skipping rest of ring"
  ({ deliveries := found.deliveries, samples := found.samples, lines },
    { ring with tail := found.tail, scratch := found.scratch })

instance : RingContent KernelRing where
  drain := drain
  ready ring := ring.head != ring.tail
  holds ring := ring.head != ring.tail

end KernelRing

/-- A ring whose records are queued by hand, and whose next drain can be made to fail. -/
structure QueuedRing where
  pending : List Delivery := []
  ready : Bool := false
  fault : Option (Nat × Errno) := none
  deriving DecidableEq

namespace QueuedRing

def delivered (deliveries : List Delivery) (failure : Option Errno) : Drained :=
  { deliveries, samples := Delivery.countSamples deliveries, failure }

def push (ring : QueuedRing) (delivery : Delivery) : QueuedRing :=
  { ring with pending := ring.pending ++ [delivery], ready := true }

/-- Takes out everything, unless a failure comes first; what is left then stays for the next
drain. -/
def drain (ring : QueuedRing) : Drained × QueuedRing :=
  match ring.fault with
  | some (count, errno) =>
      if count ≤ ring.pending.length then
        (delivered (ring.pending.take count) (some errno),
          { ring with pending := ring.pending.drop count, fault := none })
      else (delivered ring.pending none, {})
  | none => (delivered ring.pending none, {})

instance : RingContent QueuedRing where
  drain := drain
  ready := ready
  holds ring := !ring.pending.isEmpty

end QueuedRing

end KernelMaps
