/-!
The kinds of kernel maps with their numbers, and the families of typed views with the kinds that
each family can stand over.
-/

namespace KernelMaps

inductive Kind where
  | hash
  | array
  | progArray
  | perfEventArray
  | percpuHash
  | percpuArray
  | stackTrace
  | cgroupArray
  | lruHash
  | lruPercpuHash
  | lpmTrie
  | arrayOfMaps
  | hashOfMaps
  | devmap
  | sockmap
  | cpumap
  | xskmap
  | sockhash
  | cgroupStorage
  | reuseportSockarray
  | percpuCgroupStorage
  | queue
  | stack
  | skStorage
  | devmapHash
  | structOps
  | ringbuf
  | inodeStorage
  | taskStorage
  deriving DecidableEq

namespace Kind

def all : List Kind :=
  [hash, array, progArray, perfEventArray, percpuHash, percpuArray, stackTrace, cgroupArray,
    lruHash, lruPercpuHash, lpmTrie, arrayOfMaps, hashOfMaps, devmap, sockmap, cpumap, xskmap,
    sockhash, cgroupStorage, reuseportSockarray, percpuCgroupStorage, queue, stack, skStorage,
    devmapHash, structOps, ringbuf, inodeStorage, taskStorage]

/-- The kernel's number of a kind; the first one is 1. -/
def number (kind : Kind) : Nat :=
  kind.ctorIdx + 1

def ofNumber? (number : Nat) : Option Kind :=
  all.find? fun kind => kind.number == number

def name : Kind → String
  | hash => "hash"
  | array => "array"
  | progArray => "prog_array"
  | perfEventArray => "perf_event_array"
  | percpuHash => "percpu_hash"
  | percpuArray => "percpu_array"
  | stackTrace => "stack_trace"
  | cgroupArray => "cgroup_array"
  | lruHash => "lru_hash"
  | lruPercpuHash => "lru_percpu_hash"
  | lpmTrie => "lpm_trie"
  | arrayOfMaps => "array_of_maps"
  | hashOfMaps => "hash_of_maps"
  | devmap => "devmap"
  | sockmap => "sockmap"
  | cpumap => "cpumap"
  | xskmap => "xskmap"
  | sockhash => "sockhash"
  | cgroupStorage => "cgroup_storage"
  | reuseportSockarray => "reuseport_sockarray"
  | percpuCgroupStorage => "percpu_cgroup_storage"
  | queue => "queue"
  | stack => "stack"
  | skStorage => "sk_storage"
  | devmapHash => "devmap_hash"
  | structOps => "struct_ops"
  | ringbuf => "ringbuf"
  | inodeStorage => "inode_storage"
  | taskStorage => "task_storage"

def ofName? (name : String) : Option Kind :=
  all.find? fun kind => kind.name == name

def isPerCpu : Kind → Bool
  | percpuHash | percpuArray | lruPercpuHash | percpuCgroupStorage => true
  | _ => false

def isKeyless : Kind → Bool
  | queue | stack => true
  | _ => false

end Kind

inductive Family where
  | array
  | perCpuArray
  | hash
  | perCpuHash
  | queueStack
  | mapInMap
  | progArray
  | cgroupArray
  | devmap
  | xskmap
  | sockmap
  | sockhash
  | skStorage
  | inodeStorage
  | taskStorage
  | cgroupStorage
  | perCpuCgroupStorage
  | stackTrace
  | perfEventArray
  deriving DecidableEq

namespace Family

def all : List Family :=
  [array, perCpuArray, hash, perCpuHash, queueStack, mapInMap, progArray, cgroupArray, devmap,
    xskmap, sockmap, sockhash, skStorage, inodeStorage, taskStorage, cgroupStorage,
    perCpuCgroupStorage, stackTrace, perfEventArray]

def kinds : Family → List Kind
  | array => [.array, .percpuArray]
  | perCpuArray => [.percpuArray]
  | hash => [.hash, .percpuHash, .lruHash, .lruPercpuHash]
  | perCpuHash => [.percpuHash, .lruPercpuHash]
  | queueStack => [.queue, .stack]
  | mapInMap => [.arrayOfMaps, .hashOfMaps]
  | progArray => [.progArray]
  | cgroupArray => [.cgroupArray]
  | devmap => [.devmap]
  | xskmap => [.xskmap]
  | sockmap => [.sockmap]
  | sockhash => [.sockhash]
  | skStorage => [.skStorage]
  | inodeStorage => [.inodeStorage]
  | taskStorage => [.taskStorage]
  | cgroupStorage => [.cgroupStorage]
  | perCpuCgroupStorage => [.percpuCgroupStorage]
  | stackTrace => [.stackTrace]
  | perfEventArray => [.perfEventArray]

def description : Family → String
  | array => "array"
  | perCpuArray => "percpu array"
  | hash => "hash"
  | perCpuHash => "percpu hash"
  | queueStack => "queue/stack"
  | mapInMap => "map-in-map"
  | progArray => "prog"
  | cgroupArray => "cgroup array"
  | devmap => "devmap"
  | xskmap => "xskmap"
  | sockmap => "sockmap"
  | sockhash => "sockhash"
  | skStorage => "sk_storage"
  | inodeStorage => "inode_storage"
  | taskStorage => "task_storage"
  | cgroupStorage => "cgroup_storage"
  | perCpuCgroupStorage => "percpu_cgroup_storage"
  | stackTrace => "stack trace"
  | perfEventArray => "perf event array"

end Family

end KernelMaps
