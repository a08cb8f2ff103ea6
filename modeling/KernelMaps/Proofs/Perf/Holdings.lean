import KernelMaps.Proofs.Perf.EventArray
import Mathlib.Data.List.Nodup

/-!
What a perf buffer and the kernel behind it hold for each other: rings, readers, watches and the
array of events. Contents of rings, receipts, totals and log lines are left out, so that whatever
only drains or logs holds the same as before. Opening grants a ring, and closing releases some.
-/

namespace KernelMaps

def LiveRing.watch {ρ : Type} (ring : LiveRing ρ) : Watch :=
  ⟨ring.fd, ring.cpu⟩

def PerfReader.watch (reader : PerfReader) : Watch :=
  ⟨reader.fd, reader.cpu⟩

structure Holdings where
  map : Descriptor
  backend : Simulation
  nextFd : Nat
  rings : List Watch
  opened : List Cpu
  dropped : List Cpu
  readers : List PerfReader
  watched : Option (List Watch)
  receiver : Option Nat

def unreleased (released watches : List Watch) : List Watch :=
  watches.filter fun watch => watch.fd ∉ released.map Watch.fd

namespace Holdings

def withBackend (holdings : Holdings) (backend : Simulation) : Holdings :=
  { holdings with backend }

def withReaders (holdings : Holdings) (readers : List PerfReader) : Holdings :=
  { holdings with readers }

def withWatched (holdings : Holdings) (watched : Option (List Watch)) : Holdings :=
  { holdings with watched }

def grant (holdings : Holdings) (cpu : Cpu) : Holdings :=
  { holdings with
    nextFd := holdings.nextFd + 2
    rings := holdings.rings ++ [⟨holdings.nextFd, cpu⟩]
    opened := cpu :: holdings.opened }

def release (holdings : Holdings) (released : List Watch) : Holdings :=
  { holdings with
    rings := unreleased released holdings.rings
    dropped := (released.map Watch.cpu).reverse ++ holdings.dropped
    watched := holdings.watched.map (unreleased released) }

end Holdings

theorem unreleased_nil (watches : List Watch) : unreleased [] watches = watches := by
  simp [unreleased]

theorem unreleased_cons (first : Watch) (rest watches : List Watch) :
    unreleased rest (unreleased [first] watches) = unreleased (first :: rest) watches := by
  simp only [unreleased, List.filter_filter]
  congr 1
  funext watch
  simp [Bool.and_comm]

theorem Holdings.release_nil (holdings : Holdings) : holdings.release [] = holdings := by
  have same : unreleased [] = id := funext unreleased_nil
  simp [release, same, unreleased_nil]

theorem Holdings.release_cons (holdings : Holdings) (first : Watch) (rest : List Watch) :
    (holdings.release [first]).release rest = holdings.release (first :: rest) := by
  simp only [release, unreleased_cons, Option.map_map, List.map_cons, List.map_nil,
    List.reverse_cons, List.reverse_nil, List.nil_append, List.append_assoc, List.singleton_append]
  congr 1
  cases holdings.watched with
  | none => rfl
  | some watches => simp [unreleased_cons]

theorem unreleased_perm {released kept watches : List Watch}
    (split : watches.Perm (released ++ kept)) (distinct : (watches.map Watch.fd).Nodup) :
    (unreleased released watches).Perm kept := by
  have apart : ((released ++ kept).map Watch.fd).Nodup := (split.map Watch.fd).nodup_iff.1 distinct
  rw [List.map_append, List.nodup_append] at apart
  have gone : unreleased released released = [] := by
    rw [unreleased, List.filter_eq_nil_iff]
    intro watch member
    simpa using List.mem_map_of_mem member
  have left : unreleased released kept = kept := by
    rw [unreleased, List.filter_eq_self]
    intro watch member
    have absent : watch.fd ∉ released.map Watch.fd := fun held =>
      apart.2.2 watch.fd held watch.fd (List.mem_map_of_mem member) rfl
    simpa using absent
  have filtered := split.filter fun watch => watch.fd ∉ released.map Watch.fd
  rw [List.filter_append] at filtered
  rwa [unreleased, ← List.nil_append kept, ← gone, ← left]

/-- The open rings are these and no others, each with a number of its own, and every ring that was
opened is still open or was dropped. -/
structure Holdings.Books (holdings : Holdings) (held : List Watch) : Prop where
  rings : holdings.rings.Perm held
  distinct : (held.map Watch.fd).Nodup
  fresh : ∀ watch ∈ held, watch.fd < holdings.nextFd
  balance : holdings.opened.Perm (holdings.dropped ++ held.map Watch.cpu)

namespace Holdings.Books

variable {holdings : Holdings} {held : List Watch}

theorem ring_numbers (books : holdings.Books held) : (holdings.rings.map Watch.fd).Nodup :=
  (books.rings.map Watch.fd).nodup_iff.2 books.distinct

theorem perm {other : List Watch} (books : holdings.Books held) (same : held.Perm other) :
    holdings.Books other where
  rings := books.rings.trans same
  distinct := (same.map Watch.fd).nodup_iff.1 books.distinct
  fresh watch member := books.fresh watch (same.mem_iff.2 member)
  balance := books.balance.trans (.append_left _ (same.map Watch.cpu))

theorem congr {other : Holdings} (books : holdings.Books held)
    (rings : other.rings = holdings.rings) (nextFd : other.nextFd = holdings.nextFd)
    (opened : other.opened = holdings.opened) (dropped : other.dropped = holdings.dropped) :
    other.Books held where
  rings := rings ▸ books.rings
  distinct := books.distinct
  fresh := nextFd ▸ books.fresh
  balance := opened ▸ dropped ▸ books.balance

theorem grant (books : holdings.Books held) (cpu : Cpu) :
    (holdings.grant cpu).Books (held ++ [⟨holdings.nextFd, cpu⟩]) := by
  constructor
  · exact books.rings.append_right _
  · rw [List.map_append, List.nodup_append]
    refine ⟨books.distinct, by simp, ?_⟩
    intro fd member other last same
    obtain ⟨watch, holds, rfl⟩ := List.mem_map.1 member
    have below := books.fresh watch holds
    simp only [List.map_cons, List.map_nil, List.mem_singleton] at last
    omega
  · intro watch member
    show watch.fd < holdings.nextFd + 2
    rcases List.mem_append.1 member with old | new
    · have below := books.fresh watch old
      omega
    · rw [List.mem_singleton.1 new]
      show holdings.nextFd < holdings.nextFd + 2
      omega
  · have balance := books.balance.cons cpu
    rw [List.map_append]
    refine balance.trans ?_
    rw [← List.append_assoc]
    exact (List.perm_append_singleton cpu _).symm

theorem release {released kept : List Watch} (books : holdings.Books held)
    (split : held.Perm (released ++ kept)) : (holdings.release released).Books kept := by
  have apart : ((released ++ kept).map Watch.fd).Nodup :=
    (split.map Watch.fd).nodup_iff.1 books.distinct
  constructor
  · exact unreleased_perm (books.rings.trans split) books.ring_numbers
  · rw [List.map_append, List.nodup_append] at apart
    exact apart.2.1
  · intro watch member
    exact books.fresh watch (split.mem_iff.2 (List.mem_append_right _ member))
  · refine books.balance.trans ?_
    have cpus := split.map Watch.cpu
    rw [List.map_append] at cpus
    refine (cpus.append_left holdings.dropped).trans ?_
    rw [← List.append_assoc]
    refine List.Perm.append_right _ (List.perm_append_comm.trans ?_)
    exact (List.reverse_perm _).symm.append_right _

end Holdings.Books

namespace PerfBuffer

variable {ρ : Type}

def holdings (buffer : PerfBuffer ρ) : Holdings where
  map := buffer.map
  backend := buffer.host.backend
  nextFd := buffer.host.nextFd
  rings := buffer.host.rings.map LiveRing.watch
  opened := buffer.host.opened.map RingRequest.cpu
  dropped := buffer.host.dropped
  readers := buffer.readers
  watched := buffer.watched
  receiver := buffer.receiver

theorem onMap_of_run {α : Type} {buffer : PerfBuffer ρ} {program : Attempt α}
    {result : Except MapError α} {after : Simulation}
    (ran : buffer.holdings.backend.run program = (result, after)) :
    ∃ changed, buffer.onMap program = (result, changed) ∧
      changed.holdings = buffer.holdings.withBackend after := by
  have same : Backend.run buffer.host.backend program = (result, after) := ran
  refine ⟨(buffer.onMap program).2, ?_, ?_⟩
  · simp only [onMap, PerfHost.onMap, EventHost.onMap, same]
  · simp only [onMap, PerfHost.onMap, EventHost.onMap, same]
    rfl

theorem setContent_holdings (buffer : PerfBuffer ρ) (fd : Nat) (content : ρ) :
    { buffer with host := buffer.host.setContent fd content }.holdings = buffer.holdings := by
  simp only [holdings, PerfHost.setContent, List.map_map]
  congr 1
  apply List.map_congr_left
  intro ring _
  simp only [Function.comp]
  split <;> rfl

theorem openRing_cases (buffer : PerfBuffer ρ) (request : RingRequest) :
    let outcome := buffer.host.plan buffer.host.requests request
    (∃ errno host, outcome.content = .error errno ∧
        buffer.host.openRing request = (.error errno, host) ∧
        { buffer with host }.holdings = buffer.holdings) ∨
      ∃ content ring host, outcome.content = .ok content ∧
        buffer.host.openRing request = (.ok ring, host) ∧
        ring.fd = buffer.holdings.nextFd ∧ ring.watching = outcome.watching ∧
        { buffer with host }.holdings = buffer.holdings.grant request.cpu := by
  simp only [PerfHost.openRing]
  cases (buffer.host.plan buffer.host.requests request).content with
  | error errno => exact .inl ⟨errno, _, rfl, rfl, rfl⟩
  | ok content =>
      refine .inr ⟨content, _, _, rfl, rfl, rfl, rfl, ?_⟩
      simp only [holdings, Holdings.grant, List.map_append]
      rfl

theorem release_holdings {buffer : PerfBuffer ρ} {watch : Watch}
    (live : watch ∈ buffer.holdings.rings)
    (distinct : (buffer.holdings.rings.map Watch.fd).Nodup) :
    (buffer.release watch.fd).holdings = buffer.holdings.release [watch] := by
  have found : ∃ ring, buffer.host.ring? watch.fd = some ring ∧ ring.watch = watch := by
    cases located : buffer.host.ring? watch.fd with
    | none =>
        obtain ⟨ring, member, rfl⟩ := List.mem_map.1 live
        exact absurd (List.find?_eq_none.1 located ring member) (by simp [LiveRing.watch])
    | some ring =>
        refine ⟨ring, rfl, ?_⟩
        have member : ring.watch ∈ buffer.holdings.rings :=
          List.mem_map_of_mem (List.mem_of_find?_eq_some located)
        have same := PerfHost.ring?_fd located
        exact List.inj_on_of_nodup_map distinct member live same
  obtain ⟨ring, located, rfl⟩ := found
  have others : (buffer.host.rings.filter fun other => other.fd ≠ ring.fd).map LiveRing.watch =
      unreleased [ring.watch] (buffer.host.rings.map LiveRing.watch) := by
    simp only [unreleased, List.filter_map, Function.comp_def, LiveRing.watch, List.map_cons,
      List.map_nil, List.mem_singleton]
    rfl
  have watches : (fun watches : List Watch => watches.filter fun watch => watch.fd ≠ ring.fd) =
      unreleased [ring.watch] := by
    funext watches
    simp [unreleased, LiveRing.watch]
  simp only [release, located, PerfHost.closeRing, holdings, Holdings.release, others]
  rw [← watches]
  rfl

theorem release_each {buffer : PerfBuffer ρ} {readers : List PerfReader} {kept : List Watch}
    (books : buffer.holdings.Books (readers.map PerfReader.watch ++ kept)) :
    (readers.foldl (fun buffer reader => buffer.release reader.fd) buffer).holdings =
      buffer.holdings.release (readers.map PerfReader.watch) := by
  induction readers generalizing buffer with
  | nil => simp [Holdings.release_nil]
  | cons reader rest ih =>
      have live : reader.watch ∈ buffer.holdings.rings :=
        books.rings.mem_iff.2 (List.mem_append_left _ List.mem_cons_self)
      have released : (buffer.release reader.fd).holdings =
          buffer.holdings.release [reader.watch] := release_holdings live books.ring_numbers
      have left : (buffer.release reader.fd).holdings.Books (rest.map PerfReader.watch ++ kept) :=
        released ▸ books.release (.refl _)
      rw [List.foldl_cons, ih left, released, Holdings.release_cons, List.map_cons]

end PerfBuffer

namespace PerfReader

def replaced (readers : List PerfReader) (cpu : Cpu) : List PerfReader :=
  readers.filter fun other => other.cpu = cpu

def placed (readers : List PerfReader) (reader : PerfReader) : List PerfReader :=
  (readers.filter fun other => other.cpu < reader.cpu) ++
    reader :: readers.filter fun other => reader.cpu < other.cpu

theorem mem_placed {readers : List PerfReader} {reader other : PerfReader} :
    other ∈ placed readers reader ↔
      other = reader ∨ other ∈ readers ∧ other.cpu ≠ reader.cpu := by
  have order : other.cpu ≠ reader.cpu ↔ other.cpu < reader.cpu ∨ reader.cpu < other.cpu := by
    rw [UInt32.lt_iff_toNat_lt, UInt32.lt_iff_toNat_lt, ne_eq, ← UInt32.toNat_inj]
    omega
  simp only [placed, List.mem_append, List.mem_cons, List.mem_filter, decide_eq_true_eq, order]
  tauto

theorem mem_cpus_placed {readers : List PerfReader} {reader : PerfReader} {cpu : Cpu} :
    cpu ∈ (placed readers reader).map PerfReader.cpu ↔
      cpu ∈ readers.map PerfReader.cpu ∨ cpu = reader.cpu := by
  simp only [List.mem_map, mem_placed]
  constructor
  · rintro ⟨other, rfl | ⟨held, -⟩, rfl⟩
    · exact .inr rfl
    · exact .inl ⟨other, held, rfl⟩
  · rintro (⟨other, held, rfl⟩ | rfl)
    · by_cases same : other.cpu = reader.cpu
      · exact ⟨reader, .inl rfl, same.symm⟩
      · exact ⟨other, .inr ⟨held, same⟩, rfl⟩
    · exact ⟨reader, .inl rfl, rfl⟩

theorem placed_perm (readers : List PerfReader) (reader : PerfReader) :
    (readers ++ [reader]).Perm (replaced readers reader.cpu ++ placed readers reader) := by
  have beside {kept chosen : PerfReader → Prop} [DecidablePred kept] [DecidablePred chosen]
      (split : ∀ other, chosen other ↔ kept other ∧ other.cpu ≠ reader.cpu) :
      (readers.filter fun other => !decide (other.cpu = reader.cpu)).filter
        (fun other => decide (kept other)) = readers.filter fun other => chosen other := by
    rw [List.filter_filter]
    apply List.filter_congr
    intro other _
    rw [Bool.eq_iff_iff]
    simp [split]
  have below := @beside (·.cpu < reader.cpu) (·.cpu < reader.cpu) _ _ fun other => by
    rw [UInt32.lt_iff_toNat_lt, ne_eq, ← UInt32.toNat_inj]
    omega
  have above := @beside (fun other => ¬ other.cpu < reader.cpu) (reader.cpu < ·.cpu) _ _
    fun other => by
      rw [UInt32.lt_iff_toNat_lt, UInt32.lt_iff_toNat_lt, ne_eq, ← UInt32.toNat_inj]
      omega
  simp only [decide_not] at above
  have same := List.filter_append_perm (fun other => decide (other.cpu = reader.cpu)) readers
  have others := List.filter_append_perm (fun other => decide (other.cpu < reader.cpu))
    (readers.filter fun other => !decide (other.cpu = reader.cpu))
  rw [below, above] at others
  calc (readers ++ [reader]).Perm ((replaced readers reader.cpu ++
        readers.filter fun other => !decide (other.cpu = reader.cpu)) ++ [reader]) :=
      same.symm.append_right _
    _ |>.Perm (replaced readers reader.cpu ++ placed readers reader) := by
      rw [List.append_assoc]
      refine List.Perm.append_left _ ((others.symm.append_right _).trans ?_)
      rw [List.append_assoc]
      exact List.Perm.append_left _ (List.perm_append_singleton ..)

theorem placed_ascending {readers : List PerfReader} (reader : PerfReader)
    (ascending : readers.Pairwise fun first second => first.cpu < second.cpu) :
    (placed readers reader).Pairwise fun first second => first.cpu < second.cpu := by
  rw [placed, List.pairwise_append, List.pairwise_cons]
  refine ⟨ascending.filter _, ⟨?_, ascending.filter _⟩, ?_⟩
  · intro other member
    simpa using (List.mem_filter.1 member).2
  · intro first before second behind
    have lower : first.cpu < reader.cpu := by simpa using (List.mem_filter.1 before).2
    rcases List.mem_cons.1 behind with rfl | later
    · exact lower
    · have upper : reader.cpu < second.cpu := by simpa using (List.mem_filter.1 later).2
      exact UInt32.lt_trans lower upper

end PerfReader

open PerfReader in
theorem PerfBuffer.install_holdings {ρ : Type} {buffer : PerfBuffer ρ} {reader : PerfReader}
    (books : buffer.holdings.Books
      ((buffer.readers ++ [reader]).map PerfReader.watch)) :
    (buffer.install reader).holdings =
      (buffer.holdings.withReaders (placed buffer.readers reader)).release
        ((replaced buffer.readers reader.cpu).map PerfReader.watch) := by
  have split := books.perm ((placed_perm buffer.readers reader).map PerfReader.watch)
  rw [List.map_append] at split
  have placing : ({ buffer with readers := placed buffer.readers reader }).holdings.Books _ :=
    split.congr rfl rfl rfl rfl
  exact release_each placing

end KernelMaps
