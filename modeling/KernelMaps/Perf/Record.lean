import KernelMaps.Bytes

/-!
The records of a perf ring: an eight-byte header with kind and size, and a body. Of all kinds only
samples and counts of lost samples say something to a reader.
-/

namespace KernelMaps

inductive Delivery where
  | sample (bytes : Bytes)
  | lost (count : UInt64)
  deriving DecidableEq

namespace Delivery

def sample? : Delivery → Option Bytes
  | sample bytes => some bytes
  | lost _ => none

def lost? : Delivery → Option UInt64
  | sample _ => none
  | lost count => some count

def countSamples (deliveries : List Delivery) : Nat :=
  (deliveries.filterMap sample?).length

@[simp] theorem countSamples_append (first second : List Delivery) :
    countSamples (first ++ second) = countSamples first + countSamples second := by
  simp [countSamples]

/-- The sum of all counts of lost samples, which wraps around. -/
def sumLost : List Delivery → UInt64
  | [] => 0
  | sample _ :: rest => sumLost rest
  | lost count :: rest => count + sumLost rest

end Delivery

structure PerfRecord where
  kind : UInt32
  misc : UInt16
  body : Bytes
  deriving DecidableEq

namespace PerfRecord

def headerSize : Nat := 8

def lostKind : UInt32 := 2

def sampleKind : UInt32 := 9

def size (record : PerfRecord) : Nat :=
  headerSize + record.body.length

def bytes (record : PerfRecord) : Bytes :=
  wordBytes 4 record.kind.toNat ++ wordBytes 2 record.misc.toNat ++ wordBytes 2 record.size ++
    record.body

/-- A sample states the length of its data in front of it, and has no more than its body holds. A
count of lost samples stands behind a word that is not read. Bodies that are too short for that
say nothing. -/
def delivery? (record : PerfRecord) : Option Delivery :=
  if record.kind = sampleKind ∧ 4 ≤ record.body.length then
    some (.sample ((record.body.drop 4).take (wordValue (record.body.take 4))))
  else if record.kind = lostKind ∧ 16 ≤ record.body.length then
    some (.lost (UInt64.ofNat (wordValue (field record.body 8 8))))
  else none

theorem headerSize_le_size (record : PerfRecord) : headerSize ≤ record.size := by
  simp [size]

theorem bytes_length (record : PerfRecord) : record.bytes.length = record.size := by
  simp only [bytes, size, headerSize, List.length_append, wordBytes_length]

end PerfRecord

end KernelMaps
