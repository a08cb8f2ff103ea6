import KernelMaps.Codec.Hex
import KernelMaps.Map.Table
import KernelMaps.Map.Typed
import KernelMaps.Proofs.Map.Sizes
import KernelMaps.Proofs.Map.Walks

/-!
Emptying a hash by its first key. Each round asks for the first key and deletes it, so that the
entries go in the order of their keys and one fewer is left. A call that fails ends it there, with
the entries that have not had their turn.
-/

namespace KernelMaps

namespace OrderedMap

theorem erase_first {map : OrderedMap} {entry : Bytes × Bytes} {rest : List (Bytes × Bytes)}
    (listed : map.entries = entry :: rest) : (map.erase entry.1).entries = rest := by
  have distinct := map.nodup_keys
  rw [listed, List.map_cons, List.nodup_cons] at distinct
  simp only [erase, listed]
  rw [List.filter_cons_of_neg (by simp), List.filter_eq_self]
  intro other member
  have differs : other.1 ≠ entry.1 := by
    intro same
    apply distinct.1
    rw [← same]
    exact List.mem_map_of_mem member
  simpa using differs

end OrderedMap

def Descriptor.clearingRequests (map : Descriptor) (entries : List (Bytes × Bytes)) :
    List Request :=
  entries.flatMap (fun entry => [.nextKey none map.keySize, .delete entry.1]) ++
    [.nextKey none map.keySize]

def Exchange.deletes (exchange : Exchange) : Bool :=
  exchange.request.primitive = .delete && exchange.reply.isOk

/-- A round that ends with the keys, or with a failure of one of its two calls, or goes on with the
entries behind the first one. -/
inductive Rounds (size : Nat) : List (Bytes × Bytes) → List Exchange → Except MapError Unit →
    List (Bytes × Bytes) → Prop where
  | ended : Rounds size [] [⟨.nextKey none size, .error .noEntry⟩] (.ok ()) []
  | lost {entries : List (Bytes × Bytes)} {errno : Errno} (failed : errno ≠ .noEntry) :
      Rounds size entries [⟨.nextKey none size, .error errno⟩]
        (.error (.call .gettingNextKey (.system errno))) entries
  | stuck {entry : Bytes × Bytes} {rest : List (Bytes × Bytes)} (errno : Errno) :
      Rounds size (entry :: rest)
        [⟨.nextKey none size, .ok entry.1⟩, ⟨.delete entry.1, .error errno⟩]
        (.error (if errno = .noEntry then .keyNotFound else .call .deletingValue (.system errno)))
        (entry :: rest)
  | deleted {entry : Bytes × Bytes} {rest left : List (Bytes × Bytes)} {calls : List Exchange}
      {outcome : Except MapError Unit} (others : Rounds size rest calls outcome left) :
      Rounds size (entry :: rest)
        (⟨.nextKey none size, .ok entry.1⟩ :: ⟨.delete entry.1, .ok []⟩ :: calls) outcome left

/-- What the calls of a clearing say of its outcome and of the entries that are left. -/
structure ClearedInOrder (map : Descriptor) (entries left : List (Bytes × Bytes))
    (calls : List Exchange) (outcome : Except MapError Unit) : Prop where
  asked : calls.map Exchange.request <+: map.clearingRequests entries
  remaining : left = entries.drop (calls.countP Exchange.deletes)
  complete : (∀ call ∈ calls, call.failure? = none) →
    outcome = .ok () ∧ calls.length = 2 * entries.length + 1 ∧ left = []
  verdict : ∃ settled last, calls = settled ++ [last] ∧
    (∀ call ∈ settled, call.failure? = none) ∧ outcome = last.failure?.elim (.ok ()) .error

namespace Rounds

variable {map : Descriptor} {entries left : List (Bytes × Bytes)} {calls : List Exchange}
  {outcome : Except MapError Unit}

theorem asked (rounds : Rounds map.keySize entries calls outcome left) :
    calls.map Exchange.request <+: map.clearingRequests entries := by
  induction rounds with
  | ended => exact List.prefix_refl _
  | @lost entries errno _ =>
      cases entries with
      | nil => exact List.prefix_refl _
      | cons entry rest => exact ⟨_, rfl⟩
  | stuck errno => exact ⟨_, rfl⟩
  | deleted _ ih =>
      simp only [Descriptor.clearingRequests, List.flatMap_cons, List.map_cons, List.cons_append,
        List.nil_append, List.prefix_cons_inj]
      exact ih

variable {size : Nat}

theorem left_eq (rounds : Rounds size entries calls outcome left) :
    left = entries.drop (calls.countP Exchange.deletes) := by
  induction rounds with
  | ended => rfl
  | lost _ => rfl
  | stuck errno => rfl
  | deleted _ ih =>
      rw [List.countP_cons_of_neg (by simp [Exchange.deletes, Request.primitive]),
        List.countP_cons_of_pos (by simp [Exchange.deletes, Request.primitive, Except.isOk,
          Except.toBool]), List.drop_succ_cons]
      exact ih

theorem complete (rounds : Rounds size entries calls outcome left)
    (succeed : ∀ call ∈ calls, call.failure? = none) :
    outcome = .ok () ∧ calls.length = 2 * entries.length + 1 ∧ left = [] := by
  induction rounds with
  | ended => exact ⟨rfl, rfl, rfl⟩
  | lost failed => simp [failed] at succeed
  | stuck errno => simp at succeed
  | deleted _ ih =>
      simp only [List.forall_mem_cons] at succeed
      obtain ⟨same, count, nothing⟩ := ih succeed.2.2
      refine ⟨same, ?_, nothing⟩
      simp only [List.length_cons, count]
      omega

theorem verdict (rounds : Rounds size entries calls outcome left) :
    ∃ settled last, calls = settled ++ [last] ∧ (∀ call ∈ settled, call.failure? = none) ∧
      outcome = last.failure?.elim (.ok ()) .error := by
  induction rounds with
  | ended => exact ⟨[], _, rfl, List.forall_mem_nil _, rfl⟩
  | lost failed =>
      refine ⟨[], _, rfl, List.forall_mem_nil _, ?_⟩
      rw [Exchange.failure?_nextKey, if_neg failed, Option.elim_some]
  | @stuck entry rest errno =>
      refine ⟨[⟨.nextKey none size, .ok entry.1⟩], _, rfl, by simp, ?_⟩
      rw [Exchange.failure?_delete, Option.elim_some]
  | @deleted entry rest left calls outcome _ ih =>
      obtain ⟨settled, last, rfl, succeeded, same⟩ := ih
      refine ⟨⟨.nextKey none size, .ok entry.1⟩ :: ⟨.delete entry.1, .ok []⟩ :: settled, last,
        rfl, ?_, same⟩
      simp only [List.forall_mem_cons]
      exact ⟨rfl, rfl, succeeded⟩

theorem clearedInOrder (rounds : Rounds map.keySize entries calls outcome left) :
    ClearedInOrder map entries left calls outcome :=
  ⟨rounds.asked, rounds.left_eq, rounds.complete, rounds.verdict⟩

end Rounds

/-- A hash in memory whose calls may be refused, but not so that a walk seems to be over. -/
structure FacesEntries (map : Descriptor) (room : Nat) (entries : OrderedMap)
    (simulation : Simulation) : Prop where
  sized : ∀ entry ∈ entries.entries, entry.1.length = map.keySize
  store : simulation.store = .hash room entries
  mapped : simulation.mapped = true
  truthful : ∀ fault ∈ simulation.faults, fault.primitive = .nextKey → fault.errno ≠ .noEntry

namespace FacesEntries

variable {map : Descriptor} {room : Nat} {entries : OrderedMap} {simulation : Simulation}

theorem record (faces : FacesEntries map room entries simulation) {kept : OrderedMap}
    (fewer : ∀ entry ∈ kept.entries, entry ∈ entries.entries) (request : Request) (reply : Reply) :
    FacesEntries map room kept (simulation.record request reply (.hash room kept)).2 := by
  refine ⟨fun entry member => faces.sized entry (fewer entry member), rfl, faces.mapped, ?_⟩
  intro fault member
  obtain ⟨scheduled, present, primitive, errno⟩ := Simulation.exists_scheduled member
  rw [← primitive, ← errno]
  exact faces.truthful scheduled present

theorem run_firstKey (faces : FacesEntries map room entries simulation) :
    ∃ reply after, FacesEntries map room entries after ∧
      after.journal = ⟨.nextKey none map.keySize, reply⟩ :: simulation.journal ∧
      ((∃ errno, reply = .error errno ∧ errno ≠ .noEntry ∧
          simulation.run map.firstKey = (.error (.call .gettingNextKey (.system errno)), after)) ∨
        (reply = .error .noEntry ∧ entries.entries = [] ∧
          simulation.run map.firstKey = (.ok none, after)) ∨
        ∃ entry rest, reply = .ok entry.1 ∧ entries.entries = entry :: rest ∧
          simulation.run map.firstKey = (.ok (some entry.1), after)) := by
  obtain ⟨reply, store, answered, replied⟩ :=
    Simulation.answer_of_mapped faces.mapped (.nextKey none map.keySize)
  have run : simulation.run map.firstKey = _ := simulation.run_stepKey map none
  rw [answered] at run
  have kept : store = .hash room entries := by
    rcases replied with ⟨_, _, _, _, same⟩ | replied
    · rw [same, faces.store]
    · rw [← faces.store]
      exact (Prod.mk.inj replied).2.symm
  subst kept
  refine ⟨reply, _, faces.record (fun _ member => member) _ reply, rfl, ?_⟩
  rw [run]
  rcases replied with ⟨fault, scheduled, refuses, rfl, _⟩ | replied
  · have failed := faces.truthful fault scheduled refuses
    left
    refine ⟨fault.errno, rfl, failed, ?_⟩
    simp only [Simulation.record, Descriptor.handedOut, failed, if_false]
  · right
    rw [faces.store] at replied
    obtain ⟨rfl, _⟩ := Prod.mk.inj replied
    rw [Store.nextKey_hash, OrderedMap.keyFrom?, OrderedMap.firstKey?]
    cases listed : entries.entries with
    | nil => exact .inl ⟨rfl, rfl, rfl⟩
    | cons entry rest =>
        have size : entry.1.length = map.keySize :=
          faces.sized entry (by rw [listed]; exact List.mem_cons_self)
        have copied : Store.copyTo map.keySize entry.1 = .ok entry.1 := if_pos size
        right
        refine ⟨entry, rest, copied, rfl, ?_⟩
        simp only [List.head?_cons, Option.map_some, copied, Simulation.record,
          Descriptor.handedOut, fitted_of_length _ _ size]

theorem run_delete (faces : FacesEntries map room entries simulation) {entry : Bytes × Bytes}
    {rest : List (Bytes × Bytes)} (listed : entries.entries = entry :: rest) :
    ∃ reply after, after.journal = ⟨.delete entry.1, reply⟩ :: simulation.journal ∧
      ((∃ errno, reply = .error errno ∧ FacesEntries map room entries after ∧
          simulation.run (map.delete entry.1) = (.error (if errno = .noEntry then .keyNotFound
            else .call .deletingValue (.system errno)), after)) ∨
        reply = .ok [] ∧ FacesEntries map room (entries.erase entry.1) after ∧
          simulation.run (map.delete entry.1) = (.ok (), after)) := by
  have first : entry ∈ entries.entries := by
    rw [listed]
    exact List.mem_cons_self
  have checked : map.checkKey entry.1 = .ok () :=
    Descriptor.checkKey_eq_ok.2 (faces.sized entry first)
  have present : (entries.get? entry.1).isSome = true := by
    rw [OrderedMap.get?_eq_some_iff.mpr first]
    rfl
  obtain ⟨reply, store, answered, replied⟩ :=
    Simulation.answer_of_mapped faces.mapped (.delete entry.1)
  have run := simulation.run_delete map entry.1
  rw [checked, answered] at run
  refine ⟨reply, (simulation.record (.delete entry.1) reply store).2, rfl, ?_⟩
  rcases replied with ⟨fault, _, _, rfl, kept⟩ | replied
  · left
    rw [faces.store] at kept
    subst kept
    exact ⟨fault.errno, rfl, faces.record (fun _ member => member) _ _, run⟩
  · right
    rw [faces.store, Store.answer, Store.delete, if_pos present] at replied
    obtain ⟨rfl, rfl⟩ := Prod.mk.inj replied
    exact ⟨rfl, faces.record (fun _ => OrderedMap.mem_erase) _ _, run⟩

theorem run_clearKeys (simulation : Simulation) (map : Descriptor) {budget : Nat}
    (positive : 0 < budget) :
    simulation.run (clearKeys map budget) =
      match simulation.run map.firstKey with
      | (.error error, after) => (.error error, after)
      | (.ok none, after) => (.ok (some ()), after)
      | (.ok (some key), after) =>
          match after.run (map.delete key) with
          | (.error error, last) => (.error error, last)
          | (.ok _, last) => last.run (clearKeys map (budget - 1)) := by
  obtain ⟨budget, rfl⟩ := Nat.exists_eq_add_one_of_ne_zero (Nat.ne_of_gt positive)
  rw [clearKeys, Simulation.run_loop_succ, Simulation.run_bind]
  cases simulation.run map.firstKey with
  | mk found after =>
      rcases found with error | _ | key
      · rfl
      · rfl
      · simp only [Simulation.run_bind]
        cases after.run (map.delete key) with
        | mk deleted last => cases deleted <;> rfl

end FacesEntries

/-- Whether an attempt that is given rounds enough empties a hash in the order of its keys. -/
def ClearsInOrder (map : Descriptor) (room : Nat) (entries : OrderedMap) (simulation : Simulation)
    (clear : Nat → Attempt (Option Unit)) : Prop :=
  ∃ calls outcome left after,
    (∀ budget, entries.size < budget →
      simulation.run (clear budget) = (outcome.map some, after)) ∧
    after.journal = calls.reverse ++ simulation.journal ∧
    after.store = .hash room left ∧
    ClearedInOrder map entries.entries left.entries calls outcome

namespace FacesEntries

variable {map : Descriptor} {room : Nat} {entries : OrderedMap} {simulation : Simulation}

/-- With every round that goes on there is one entry fewer, so that the rounds come to an end. -/
theorem rounds (faces : FacesEntries map room entries simulation) :
    ∃ calls outcome left after,
      (∀ budget, entries.size < budget →
        simulation.run (clearKeys map budget) = (outcome.map some, after)) ∧
      after.journal = calls.reverse ++ simulation.journal ∧
      after.store = .hash room left ∧
      Rounds map.keySize entries.entries calls outcome left.entries := by
  generalize count : entries.size = size
  induction size using Nat.strongRecOn generalizing entries simulation with
  | ind size ih =>
      obtain ⟨reply, asked, facing, journal, ⟨errno, rfl, failed, run⟩ | ⟨rfl, empty, run⟩ |
        ⟨entry, rest, rfl, listed, run⟩⟩ := faces.run_firstKey
      · refine ⟨_, _, entries, asked, ?_, ?_, facing.store, .lost failed⟩
        · intro budget enough
          rw [run_clearKeys _ _ (by omega), run]
          rfl
        · exact journal
      · have ends : Rounds map.keySize [] _ _ [] := .ended
        rw [← empty] at ends
        refine ⟨_, _, entries, asked, ?_, ?_, facing.store, ends⟩
        · intro budget enough
          rw [run_clearKeys _ _ (by omega), run]
          rfl
        · exact journal
      · obtain ⟨answer, deleted, recorded, ⟨errno, rfl, stuck, ran⟩ | ⟨rfl, fewer, ran⟩⟩ :=
          facing.run_delete listed
        · have ends : Rounds map.keySize (entry :: rest) _ _ (entry :: rest) := .stuck errno
          rw [← listed] at ends
          refine ⟨_, _, entries, deleted, ?_, ?_, stuck.store, ends⟩
          · intro budget enough
            rw [run_clearKeys _ _ (by omega), run]
            simp only [ran]
            rfl
          · rw [recorded, journal]
            rfl
        · have behind := OrderedMap.erase_first listed
          have shorter : (entries.erase entry.1).size + 1 = size := by
            rw [← count, OrderedMap.size, OrderedMap.size, behind, listed, List.length_cons]
          obtain ⟨calls, outcome, left, last, ends, written, store, others⟩ :=
            ih _ (by omega) fewer rfl
          have goesOn : Rounds map.keySize (entry :: rest) _ outcome left.entries :=
            .deleted (behind ▸ others)
          rw [← listed] at goesOn
          refine ⟨_, outcome, left, last, ?_, ?_, store, goesOn⟩
          · intro budget enough
            rw [run_clearKeys _ _ (by omega), run]
            simp only [ran]
            exact ends (budget - 1) (by omega)
          · rw [written, recorded, journal]
            simp only [List.reverse_cons, List.append_assoc, List.cons_append, List.nil_append]

theorem clearsInOrder (faces : FacesEntries map room entries simulation) :
    ClearsInOrder map room entries simulation (clearKeys map) := by
  obtain ⟨calls, outcome, left, after, ends, written, store, rounds⟩ := faces.rounds
  exact ⟨calls, outcome, left, after, ends, written, store, rounds.clearedInOrder⟩

end FacesEntries

def Table.firstKeyKinds : List Kind :=
  [.hash, .lruHash, .percpuHash, .lruPercpuHash, .hashOfMaps]

def Table.indexKinds : List Kind :=
  [.progArray, .perfEventArray, .stackTrace, .arrayOfMaps]

theorem Table.clear_of_firstKeyKinds {map : Descriptor} (listed : map.kind ∈ firstKeyKinds)
    (factor : Nat) : Table.clear ⟨map, factor⟩ = clearKeys map := by
  funext budget
  simp only [firstKeyKinds, List.mem_cons, List.not_mem_nil, or_false] at listed
  rcases listed with kind | kind | kind | kind | kind <;> simp only [clear, kind]

theorem Table.clear_refused {map : Descriptor}
    (other : map.kind ∉ firstKeyKinds ∧ map.kind ∉ indexKinds) (factor budget : Nat) :
    (Table.clear ⟨map, factor⟩ budget).run =
      .done (.error (.unsupported map.name (if map.kind ∈ [.array, .percpuArray] then
        .arrayElementsStay else .clearingKind map.kind))) := by
  simp only [clear]
  cases kind : map.kind <;> rw [kind] at other <;> first | rfl | exact absurd other (by decide)

structure HashesCleared (map : Descriptor) (room : Nat) (entries : OrderedMap)
    (simulation : Simulation) : Prop where
  hash : ∀ (κ α : Type) [Element κ] [Element α] (view : TypedMap κ α),
    TypedMap.hash κ α map = .ok view → ClearsInOrder map room entries simulation view.clear
  perCpuHash : ∀ (κ α : Type) [Element κ] [Element α] (view : TypedMap κ (List α)),
    TypedMap.perCpuHash κ α map = .ok view → ClearsInOrder map room entries simulation view.clear
  sockhash : ∀ (κ : Type) [Element κ] (view : TypedMap κ Int32),
    TypedMap.sockhash κ map = .ok view → ClearsInOrder map room entries simulation view.clear
  mapInMap : ∀ (κ : Type) [Element κ] (view : TypedMap κ Int32), map.kind = .hashOfMaps →
    TypedMap.mapInMap κ map = .ok view → ClearsInOrder map room entries simulation view.clear
  localStorage : ∀ (α : Type) [Element α] (family : Family) (view : TypedMap Int32 α),
    family ∈ [Family.skStorage, .inodeStorage, .taskStorage] →
      TypedMap.localStorage α family map = .ok view →
        ClearsInOrder map room entries simulation view.clear
  cgroupStorage : ∀ (α : Type) [Element α] (view : TypedMap CgroupKey α),
    TypedMap.cgroupStorage α map = .ok view → ClearsInOrder map room entries simulation view.clear
  perCpuCgroupStorage : ∀ (α : Type) [Element α] (view : TypedMap CgroupKey (List α)),
    TypedMap.perCpuCgroupStorage α map = .ok view →
      ClearsInOrder map room entries simulation view.clear
  table : ∀ factor, map.kind ∈ Table.firstKeyKinds →
    ClearsInOrder map room entries simulation (Table.clear ⟨map, factor⟩)

section

variable {κ α : Type} [Element κ] [Element α] {map : Descriptor} {room : Nat}
  {entries : OrderedMap} {simulation : Simulation}

theorem clearsInOrder_of_single {family : Family} {clearing : Clearing}
    {summary : Descriptor → String} {view : TypedMap κ α} (byFirstKey : clearing = .byFirstKey)
    (made : TypedMap.single κ α family clearing summary map = .ok view)
    (faces : FacesEntries map room entries simulation) :
    ClearsInOrder map room entries simulation view.clear := by
  obtain ⟨_, rfl⟩ := TypedMap.single_eq_ok.1 made
  subst byFirstKey
  exact faces.clearsInOrder

theorem clearsInOrder_of_perCpu {family : Family} {summary : Descriptor → String}
    {view : TypedMap κ (List α)} (made : TypedMap.perCpu κ α family summary map = .ok view)
    (faces : FacesEntries map room entries simulation) :
    ClearsInOrder map room entries simulation view.clear := by
  obtain ⟨_, rfl⟩ := TypedMap.perCpu_eq_ok.1 made
  exact faces.clearsInOrder

end

/-- Clearing a hash by its first key comes to an end under every schedule of failures that does not
make up the end of the keys. It deletes the entries in the order of their keys, and stops with the
first call that fails and the entries from there on. A text table clears other kinds by index, or
refuses without a call. -/
theorem clearing_deletes_in_order (map : Descriptor) :
    (∀ simulation room entries, simulation.mapped = true →
      simulation.store = .hash room entries →
      (∀ entry ∈ entries.entries, entry.1.length = map.keySize) →
      (∀ fault ∈ simulation.faults, fault.primitive = .nextKey → fault.errno ≠ .noEntry) →
        HashesCleared map room entries simulation) ∧
    ∀ factor budget, map.kind ∉ Table.firstKeyKinds ∧ map.kind ∉ Table.indexKinds →
      (Table.clear ⟨map, factor⟩ budget).run =
        .done (.error (.unsupported map.name (if map.kind ∈ [.array, .percpuArray] then
          .arrayElementsStay else .clearingKind map.kind))) := by
  refine ⟨?_, fun factor budget other => Table.clear_refused other factor budget⟩
  intro simulation room entries mapped store sized truthful
  have faces : FacesEntries map room entries simulation := ⟨sized, store, mapped, truthful⟩
  constructor
  case hash =>
    intro κ α _ _ view made
    exact clearsInOrder_of_single rfl made faces
  case perCpuHash =>
    intro κ α _ _ view made
    exact clearsInOrder_of_perCpu made faces
  case sockhash =>
    intro κ _ view made
    exact clearsInOrder_of_single rfl made faces
  case mapInMap =>
    intro κ _ view kind made
    exact clearsInOrder_of_single (by rw [kind]; rfl) made faces
  case localStorage =>
    intro α _ family view _ made
    exact clearsInOrder_of_single rfl made faces
  case cgroupStorage =>
    intro α _ view made
    exact clearsInOrder_of_single rfl made faces
  case perCpuCgroupStorage =>
    intro α _ view made
    exact clearsInOrder_of_perCpu made faces
  case table =>
    intro factor listed
    rw [Table.clear_of_firstKeyKinds listed]
    exact faces.clearsInOrder

def peerSockets : Descriptor where
  name := "peers"
  kind := .sockhash
  keySize := 1
  valueSize := 4
  capacity := 8
  fd := 4
  ownsFd := true
  cpuCount := 2
  keyCodec := .hex
  valueCodec := .hex

def threePeers : OrderedMap :=
  ((OrderedMap.empty.insert [1] [7, 0, 0, 0]).insert [2] [8, 0, 0, 0]).insert [3] [9, 0, 0, 0]

def guardedPeers : Simulation :=
  ⟨.hash 8 threePeers, [.ofCalls .delete 2 1 .notPermitted], true, []⟩

theorem guarded_peers_stay :
    (∀ entry ∈ threePeers.entries, entry.1.length = peerSockets.keySize) ∧
    (∀ fault ∈ guardedPeers.faults, fault.primitive = .nextKey → fault.errno ≠ .noEntry) ∧
    (∃ (view : TypedMap UInt8 Int32) (left : OrderedMap) (after : Simulation),
      TypedMap.sockhash UInt8 peerSockets = .ok view ∧
      guardedPeers.run (view.clear 4) =
        (.error (.call .deletingValue (.system .notPermitted)), after) ∧
      after.store = .hash 8 left ∧ left.entries = [([2], [8, 0, 0, 0]), ([3], [9, 0, 0, 0])]) ∧
    (peerSockets.kind ∉ Table.firstKeyKinds ∧ peerSockets.kind ∉ Table.indexKinds) ∧
    (Table.clear ⟨peerSockets, 8⟩ 4).run =
      .done (.error (.unsupported "peers" (.clearingKind .sockhash))) := by
  have sized : ∀ entry ∈ threePeers.entries, entry.1.length = peerSockets.keySize := by decide
  have truthful : ∀ fault ∈ guardedPeers.faults,
      fault.primitive = .nextKey → fault.errno ≠ .noEntry := by decide
  have other : peerSockets.kind ∉ Table.firstKeyKinds ∧ peerSockets.kind ∉ Table.indexKinds := by
    decide
  obtain ⟨cleared, refused⟩ := clearing_deletes_in_order peerSockets
  have made : TypedMap.sockhash UInt8 peerSockets = .ok
      ⟨peerSockets, Content.single Int32, .byFirstKey, _⟩ := rfl
  obtain ⟨calls, outcome, left, after, ends, written, store, inOrder⟩ :=
    (cleared guardedPeers 8 threePeers rfl rfl sized truthful).sockhash UInt8 _ made
  have ran : guardedPeers.run (clearKeys peerSockets 4) = (outcome.map some, after) :=
    ends 4 (by decide)
  have failed : (guardedPeers.run (clearKeys peerSockets 4)).1 =
      .error (.call .deletingValue (.system .notPermitted)) := rfl
  have kept : (guardedPeers.run (clearKeys peerSockets 4)).2.store =
      .hash 8 (threePeers.erase [1]) := rfl
  rw [ran] at failed kept
  obtain ⟨_, rfl⟩ := Store.hash.inj (store.symm.trans kept)
  refine ⟨sized, truthful, ⟨_, _, after, made, ?_, store, rfl⟩, other, refused 8 4 other⟩
  rw [← failed]
  exact ran

end KernelMaps
