import KernelMaps.Proofs.Perf.Holdings

/-!
What stays in step while a buffer is opened, drained and closed: its readers, the rings that are
open, the watches and the slots of the event array. A failure on the way takes back what was begun,
and a removal that fails is among the failures that closing reports.
-/

namespace KernelMaps

open PerfReader (placed replaced mem_placed placed_perm placed_ascending)

/-- The slots of an event array that began as `initial`. Those of the readers hold their numbers,
and each of the others holds what it held at first, or nothing, or an entry that was reported. -/
structure Entries (initial : Array (Option Bytes)) (reported : Nat → Bytes → Prop)
    (readers : List PerfReader) (slots : Array (Option Bytes)) : Prop where
  size : slots.size = initial.size
  own : ∀ reader ∈ readers, slots[reader.cpu.toNat]? = some (some (wordBytes 4 reader.fd))
  other : ∀ index, (∀ reader ∈ readers, reader.cpu.toNat ≠ index) →
    slots[index]? = initial[index]? ∨ slots[index]? = some none ∨
      ∃ entry, reported index entry ∧ slots[index]? = some (some entry)

theorem Entries.place {initial slots : Array (Option Bytes)} {reported : Nat → Bytes → Prop}
    {readers : List PerfReader} (entries : Entries initial reported readers slots)
    {reader : PerfReader} (inside : reader.cpu.toNat < slots.size) :
    Entries initial reported (placed readers reader)
      (slots.setIfInBounds reader.cpu.toNat (some (wordBytes 4 reader.fd))) := by
  constructor
  · rw [Array.size_setIfInBounds, entries.size]
  · intro other member
    rcases mem_placed.1 member with rfl | ⟨held, apart⟩
    · rw [Array.getElem?_setIfInBounds, if_pos rfl, if_pos inside]
    · have differs : reader.cpu.toNat ≠ other.cpu.toNat := fun same =>
        apart (UInt32.toNat_inj.1 same).symm
      rw [Array.getElem?_setIfInBounds, if_neg differs]
      exact entries.own other held
  · intro index free
    have differs : reader.cpu.toNat ≠ index := free reader (mem_placed.2 (.inl rfl))
    rw [Array.getElem?_setIfInBounds, if_neg differs]
    apply entries.other index
    intro other held same
    by_cases taken : other.cpu = reader.cpu
    · exact differs (taken ▸ same)
    · exact free other (mem_placed.2 (.inr ⟨held, taken⟩)) same

def PerfReader.removalFailure (reader : PerfReader) (errno : Errno) : String :=
  s!"{reader.cpu.label}: {(MapError.call .deletingValue (.system errno)).message}"

/-- The slots behind an attempt to remove the entries of some readers: a slot is empty, or it is as
before and no reader had it without a failure. -/
structure Cleared (readers : List PerfReader) (failures : List String)
    (before after : Array (Option Bytes)) : Prop where
  size : after.size = before.size
  each : ∀ index, after[index]? = some none ∨
    after[index]? = before[index]? ∧ ∀ reader ∈ readers, reader.cpu.toNat = index →
      ∃ errno, reader.removalFailure errno ∈ failures

theorem Cleared.trans {first rest : List PerfReader} {failures more : List String}
    {before between after : Array (Option Bytes)} (begun : Cleared first failures before between)
    (others : Cleared rest more between after) :
    Cleared (first ++ rest) (failures ++ more) before after := by
  refine ⟨others.size.trans begun.size, fun index => ?_⟩
  rcases others.each index with empty | ⟨kept, late⟩
  · exact .inl empty
  · rcases begun.each index with empty | ⟨same, early⟩
    · exact .inl (kept.trans empty)
    · refine .inr ⟨kept.trans same, fun reader member here => ?_⟩
      rcases List.mem_append.1 member with old | new
      · obtain ⟨errno, listed⟩ := early reader old here
        exact ⟨errno, List.mem_append_left _ listed⟩
      · obtain ⟨errno, listed⟩ := late reader new here
        exact ⟨errno, List.mem_append_right _ listed⟩

theorem Entries.clear {initial before after : Array (Option Bytes)}
    {reported extended : Nat → Bytes → Prop} {readers : List PerfReader} {failures : List String}
    (entries : Entries initial reported readers before)
    (cleared : Cleared readers failures before after)
    (kept : ∀ index entry, reported index entry → extended index entry)
    (added : ∀ reader ∈ readers, ∀ errno, reader.removalFailure errno ∈ failures →
      extended reader.cpu.toNat (wordBytes 4 reader.fd)) :
    Entries initial extended [] after := by
  refine ⟨cleared.size.trans entries.size, by simp, fun index _ => ?_⟩
  rcases cleared.each index with empty | ⟨same, failed⟩
  · exact .inr (.inl empty)
  · rw [same]
    by_cases taken : ∃ reader ∈ readers, reader.cpu.toNat = index
    · obtain ⟨reader, member, rfl⟩ := taken
      obtain ⟨errno, listed⟩ := failed reader member rfl
      exact .inr (.inr ⟨_, added reader member errno listed, entries.own reader member⟩)
    · have free : ∀ reader ∈ readers, reader.cpu.toNat ≠ index :=
        fun reader member here => taken ⟨reader, member, here⟩
      rcases entries.other index free with first | empty | ⟨entry, known, held⟩
      · exact .inl first
      · exact .inr (.inl empty)
      · exact .inr (.inr ⟨entry, kept index entry known, held⟩)

namespace Holdings

structure Sound (initial : Array (Option Bytes)) (reported : Nat → Bytes → Prop)
    (holdings : Holdings) : Prop where
  keys : holdings.map.keySize = 4
  ascending : holdings.readers.Pairwise fun first second => first.cpu < second.cpu
  books : holdings.Books (holdings.readers.map PerfReader.watch)
  closed : holdings.watched = none → holdings.readers = [] ∧ holdings.receiver = none
  watched : ∀ watches, holdings.watched = some watches →
    watches.Perm (holdings.readers.map PerfReader.watch) ∧ holdings.receiver.isSome
  entries : ∃ slots, holdings.backend.HoldsSlots slots ∧
    Entries initial reported holdings.readers slots

/-- What holds of readers, rings and watches whatever the map answers. -/
structure Tended (holdings : Holdings) : Prop where
  ascending : holdings.readers.Pairwise fun first second => first.cpu < second.cpu
  books : holdings.Books (holdings.readers.map PerfReader.watch)
  closed : holdings.watched = none → holdings.readers = [] ∧ holdings.receiver = none
  watched : ∀ watches, holdings.watched = some watches →
    watches.Perm (holdings.readers.map PerfReader.watch) ∧ holdings.receiver.isSome

def offer (holdings : Holdings) (cpu : Cpu) (backend : Simulation) : Holdings :=
  { holdings.grant cpu with
    watched := holdings.watched.map (· ++ [⟨holdings.nextFd, cpu⟩])
    backend }

variable {initial : Array (Option Bytes)} {reported : Nat → Bytes → Prop} {holdings : Holdings}

theorem grant_release (holdings : Holdings) (cpu : Cpu) :
    (holdings.grant cpu).release [⟨holdings.nextFd, cpu⟩] =
      (holdings.offer cpu holdings.backend).release [⟨holdings.nextFd, cpu⟩] := by
  have same : unreleased [⟨holdings.nextFd, cpu⟩] ∘ (· ++ [⟨holdings.nextFd, cpu⟩]) =
      unreleased [⟨holdings.nextFd, cpu⟩] := by
    funext watches
    simp [unreleased]
  simp only [release, offer, grant, Option.map_map, same]

theorem Books.offer {held : List Watch} (books : holdings.Books held) (cpu : Cpu)
    (backend : Simulation) :
    (holdings.offer cpu backend).Books (held ++ [⟨holdings.nextFd, cpu⟩]) :=
  (books.grant cpu).congr rfl rfl rfl rfl

theorem Sound.mono {extended : Nat → Bytes → Prop} (sound : holdings.Sound initial reported)
    (kept : ∀ index entry, reported index entry → extended index entry) :
    holdings.Sound initial extended := by
  obtain ⟨slots, holds, size, own, other⟩ := sound.entries
  refine { sound with entries := ⟨slots, holds, size, own, fun index free => ?_⟩ }
  rcases other index free with first | empty | ⟨entry, known, held⟩
  · exact .inl first
  · exact .inr (.inl empty)
  · exact .inr (.inr ⟨entry, kept index entry known, held⟩)

theorem Sound.tended (sound : holdings.Sound initial reported) : holdings.Tended :=
  ⟨sound.ascending, sound.books, sound.closed, sound.watched⟩

theorem Tended.sound (tended : holdings.Tended) (keys : holdings.map.keySize = 4)
    {slots : Array (Option Bytes)} (holds : holdings.backend.HoldsSlots slots)
    (entries : Entries initial reported holdings.readers slots) : holdings.Sound initial reported :=
  ⟨keys, tended.ascending, tended.books, tended.closed, tended.watched, slots, holds, entries⟩

theorem Tended.take_back (tended : holdings.Tended) (cpu : Cpu) (backend : Simulation) :
    ((holdings.offer cpu backend).release [⟨holdings.nextFd, cpu⟩]).Tended := by
  have books := tended.books.offer cpu backend
  refine ⟨tended.ascending, ?_, ?_, ?_⟩
  · exact books.release List.perm_append_comm
  · intro closed
    simp only [release, offer, Option.map_eq_none_iff] at closed
    exact tended.closed closed
  · intro watches watching
    simp only [release, offer, Option.map_eq_some_iff] at watching
    obtain ⟨_, ⟨before, held, rfl⟩, rfl⟩ := watching
    obtain ⟨same, receiver⟩ := tended.watched before held
    refine ⟨?_, receiver⟩
    refine unreleased_perm ((same.append_right _).trans List.perm_append_comm) ?_
    exact ((same.append_right _).map Watch.fd).nodup_iff.2 books.distinct

def start (holdings : Holdings) (receiver : Nat) : Holdings :=
  { holdings with watched := some [], receiver := some receiver }

theorem Tended.start (tended : holdings.Tended) (none : holdings.readers = []) (receiver : Nat) :
    (holdings.start receiver).Tended := by
  refine ⟨tended.ascending, ?_, ?_, ?_⟩
  · exact tended.books.congr rfl rfl rfl rfl
  · intro closed
    exact absurd closed (Option.some_ne_none _)
  · rintro watches watching
    obtain rfl := Option.some.inj watching
    refine ⟨?_, rfl⟩
    show List.Perm [] (holdings.readers.map PerfReader.watch)
    rw [none]
    exact .refl _

def placing (holdings : Holdings) (reader : PerfReader) (backend : Simulation) : Holdings :=
  ((holdings.offer reader.cpu backend).withReaders (placed holdings.readers reader)).release
    ((replaced holdings.readers reader.cpu).map PerfReader.watch)

theorem Tended.place (tended : holdings.Tended) {reader : PerfReader}
    (opened : holdings.watched ≠ none) (number : reader.fd = holdings.nextFd)
    (backend : Simulation) : (holdings.placing reader backend).Tended := by
  have watch : (⟨holdings.nextFd, reader.cpu⟩ : Watch) = reader.watch := by
    rw [PerfReader.watch, number]
  have books := tended.books.offer reader.cpu backend
  have split := (placed_perm holdings.readers reader).map PerfReader.watch
  simp only [List.map_append, List.map_cons, List.map_nil, ← watch] at split
  refine ⟨placed_ascending reader tended.ascending, ?_, ?_, ?_⟩
  · exact (books.release split).congr rfl rfl rfl rfl
  · intro closed
    simp only [placing, release, withReaders, offer, Option.map_eq_none_iff] at closed
    exact absurd closed opened
  · intro watches watching
    simp only [placing, release, withReaders, offer, Option.map_eq_some_iff] at watching
    obtain ⟨_, ⟨before, held, rfl⟩, rfl⟩ := watching
    obtain ⟨same, receiver⟩ := tended.watched before held
    refine ⟨?_, receiver⟩
    refine unreleased_perm ((same.append_right _).trans split) ?_
    exact ((same.append_right _).map Watch.fd).nodup_iff.2 books.distinct

/-- What an attempt to open one ring can leave: everything as it was, the new ring taken back before
or after its number was refused a slot, or the new ring in its place. -/
inductive OpensOne (holdings : Holdings) (cpu : Cpu) : Holdings → Prop where
  | refused : OpensOne holdings cpu holdings
  | unwatched : OpensOne holdings cpu
      ((holdings.offer cpu holdings.backend).release [⟨holdings.nextFd, cpu⟩])
  | unstored {error : MapError} {backend : Simulation}
      (failed : holdings.backend.run (holdings.map.storeEvent cpu holdings.nextFd) =
        (.error error, backend)) :
      OpensOne holdings cpu ((holdings.offer cpu backend).release [⟨holdings.nextFd, cpu⟩])
  | placed {reported : Nat} {backend : Simulation} (opened : holdings.watched ≠ none)
      (stored : holdings.backend.run (holdings.map.storeEvent cpu holdings.nextFd) =
        (.ok (), backend)) :
      OpensOne holdings cpu (holdings.placing ⟨cpu, holdings.nextFd, reported⟩ backend)

inductive Tries {ρ : Type} (holdings : Holdings) (outcome : RingOutcome ρ) (cpu : Cpu) :
    Except MapError Unit → Holdings → Prop where
  | refused {errno : Errno} (denied : outcome.content = .error errno) :
      Tries holdings outcome cpu (.error (.io (.system errno))) holdings
  | unwatched {content : ρ} {errno : Errno} (granted : outcome.content = .ok content)
      (unwatched : outcome.watching = some errno) :
      Tries holdings outcome cpu (.error (.io (.system errno)))
        ((holdings.offer cpu holdings.backend).release [⟨holdings.nextFd, cpu⟩])
  | unstored {content : ρ} {error : MapError} {backend : Simulation}
      (granted : outcome.content = .ok content) (watching : outcome.watching = none)
      (failed : holdings.backend.run (holdings.map.storeEvent cpu holdings.nextFd) =
        (.error error, backend)) :
      Tries holdings outcome cpu (.error error)
        ((holdings.offer cpu backend).release [⟨holdings.nextFd, cpu⟩])
  | placed {content : ρ} {reported : Nat} {backend : Simulation}
      (granted : outcome.content = .ok content) (watching : outcome.watching = none)
      (stored : holdings.backend.run (holdings.map.storeEvent cpu holdings.nextFd) =
        (.ok (), backend)) :
      Tries holdings outcome cpu (.ok ())
        (holdings.placing ⟨cpu, holdings.nextFd, reported⟩ backend)

theorem Tries.opens {ρ : Type} {outcome : RingOutcome ρ} {cpu : Cpu}
    {result : Except MapError Unit} {after : Holdings}
    (tries : holdings.Tries outcome cpu result after) (opened : holdings.watched ≠ none) :
    holdings.OpensOne cpu after := by
  cases tries with
  | refused denied => exact .refused
  | unwatched granted unwatched => exact .unwatched
  | unstored granted watching failed => exact .unstored failed
  | placed granted watching stored => exact .placed opened stored

theorem OpensOne.tended {after : Holdings} {cpu : Cpu} (opens : holdings.OpensOne cpu after)
    (tended : holdings.Tended) : after.Tended := by
  cases opens with
  | refused => exact tended
  | unwatched => exact tended.take_back cpu _
  | unstored failed => exact tended.take_back cpu _
  | placed opened stored => exact tended.place opened rfl _

theorem OpensOne.sound {after : Holdings} {cpu : Cpu} (opens : holdings.OpensOne cpu after)
    (sound : holdings.Sound initial reported) : after.Sound initial reported := by
  have tended := opens.tended sound.tended
  obtain ⟨slots, holds, entries⟩ := sound.entries
  have storing := holds.storeEvent holdings.map cpu holdings.nextFd
  cases opens with
  | refused => exact sound
  | unwatched => exact tended.sound sound.keys holds entries
  | unstored failed =>
      rcases storing with ⟨error, after, refused, kept⟩ | ⟨after, stored, inside, set⟩
      · rw [failed] at refused
        obtain ⟨-, rfl⟩ := Prod.mk.inj refused
        exact tended.sound sound.keys kept entries
      · rw [failed] at stored
        exact nomatch stored
  | placed opened stored =>
      rcases storing with ⟨error, after, refused, kept⟩ | ⟨after, held, inside, set⟩
      · rw [stored] at refused
        exact nomatch refused
      · rw [stored] at held
        obtain ⟨-, rfl⟩ := Prod.mk.inj held
        exact tended.sound sound.keys set (entries.place inside)

end Holdings

namespace PerfBuffer

variable {ρ : Type} {initial : Array (Option Bytes)} {reported : Nat → Bytes → Prop}

theorem unwatch_holdings {buffer : PerfBuffer ρ} {watches : List Watch} {watch : Watch}
    (watching : buffer.watched = some watches) (present : watch ∈ watches) :
    ∃ changed, buffer.unwatch watch.fd = (.ok (), changed) ∧
      changed.holdings = buffer.holdings.withWatched (some (unreleased [watch] watches)) := by
  have found : watches.any (fun other => other.fd = watch.fd) = true :=
    List.any_eq_true.2 ⟨watch, present, by simp⟩
  simp only [unwatch, watching, found, if_true]
  refine ⟨_, rfl, ?_⟩
  simp [holdings, Holdings.withWatched, unreleased]

theorem abandon_holdings {buffer : PerfBuffer ρ} {watches : List Watch} {watch : Watch}
    (watching : buffer.watched = some watches) (present : watch ∈ watches)
    (live : watch ∈ buffer.holdings.rings)
    (distinct : (buffer.holdings.rings.map Watch.fd).Nodup) :
    (buffer.abandon watch.cpu watch.fd).holdings = buffer.holdings.release [watch] := by
  obtain ⟨changed, unwatched, same⟩ := unwatch_holdings watching present
  have released := @release_holdings _ changed watch (by rwa [same]) (by rwa [same])
  have again : unreleased [watch] (unreleased [watch] watches) = unreleased [watch] watches := by
    simp [unreleased, List.filter_filter]
  have before : buffer.holdings.watched = some watches := watching
  simp only [abandon, unwatched, released, same, Holdings.release, Holdings.withWatched, before,
    Option.map_some, again]

theorem abandon_offered {buffer started : PerfBuffer ρ} {cpu : Cpu} {after : Simulation}
    {watches : List Watch} (tended : buffer.holdings.Tended)
    (watching : buffer.holdings.watched = some watches)
    (offered : started.holdings = buffer.holdings.offer cpu after) :
    (started.abandon cpu buffer.holdings.nextFd).holdings =
      (buffer.holdings.offer cpu after).release [⟨buffer.holdings.nextFd, cpu⟩] := by
  have books := offered ▸ tended.books.offer cpu after
  have watched : started.holdings.watched =
      some (watches ++ [⟨buffer.holdings.nextFd, cpu⟩]) := by
    rw [offered, Holdings.offer, watching]
    rfl
  have live := books.rings.mem_iff.2 (List.mem_append_right _ (List.mem_singleton_self _))
  have abandoned := abandon_holdings watched
    (List.mem_append_right _ (List.mem_singleton_self _)) live books.ring_numbers
  rw [abandoned, offered]

theorem install_offered {buffer started : PerfBuffer ρ} {reader : PerfReader} {after : Simulation}
    (tended : buffer.holdings.Tended) (number : reader.fd = buffer.holdings.nextFd)
    (offered : started.holdings = buffer.holdings.offer reader.cpu after) :
    (started.install reader).holdings = buffer.holdings.placing reader after := by
  have readers : started.readers = buffer.holdings.readers := congrArg Holdings.readers offered
  have books := offered ▸ tended.books.offer reader.cpu after
  rw [← number] at books
  have listed : (started.readers ++ [reader]).map PerfReader.watch =
      buffer.holdings.readers.map PerfReader.watch ++ [⟨reader.fd, reader.cpu⟩] := by
    rw [readers, List.map_append]
    rfl
  rw [install_holdings (listed ▸ books), offered, readers]
  rfl

theorem watch_granted {buffer : PerfBuffer ρ} {host : PerfHost ρ} {watches : List Watch} {cpu : Cpu}
    (watching : buffer.holdings.watched = some watches)
    (granted : { buffer with host, watched := some watches }.holdings =
      buffer.holdings.grant cpu) :
    ({ buffer with host, watched := some (watches ++ [⟨buffer.holdings.nextFd, cpu⟩]) } :
        PerfBuffer ρ).holdings =
      buffer.holdings.offer cpu buffer.holdings.backend := by
  have watched := congrArg (Holdings.withWatched · (some (watches ++
    [⟨buffer.holdings.nextFd, cpu⟩]))) granted
  simp only [Holdings.withWatched] at watched
  rw [Holdings.offer, watching]
  exact watched

theorem openOne_tries {buffer : PerfBuffer ρ} (tended : buffer.holdings.Tended)
    (opened : buffer.holdings.watched ≠ none) (request : RingRequest) :
    buffer.holdings.Tries (buffer.host.plan buffer.host.requests request) request.cpu
      (buffer.openOne request).1 (buffer.openOne request).2.holdings := by
  rw [openOne]
  cases watching : buffer.watched with
  | none => exact absurd watching opened
  | some watches =>
      have before : buffer.holdings.watched = some watches := watching
      rcases buffer.openRing_cases request with
        ⟨errno, host, denied, refused, same⟩ |
          ⟨content, ring, host, allowed, granted, number, watch, same⟩
      · rw [watching] at same
        simp only [refused]
        rw [same]
        exact .refused denied
      · rw [watching] at same
        simp only [granted, number]
        have added := watch_granted before same
        generalize ({ buffer with host, watched := some watches } : PerfBuffer ρ) = begun at same
        generalize ({ buffer with host, watched := some (watches ++
          [⟨buffer.holdings.nextFd, request.cpu⟩]) } : PerfBuffer ρ) = started at added
        have backend : started.holdings.backend = buffer.holdings.backend := by
          rw [added]
          rfl
        cases watchable : ring.watching with
        | some errno =>
            have books := same ▸ tended.books.grant request.cpu
            have live := books.rings.mem_iff.2
              (List.mem_append_right _ (List.mem_singleton_self _))
            have released := release_holdings live books.ring_numbers
            dsimp only at released ⊢
            rw [released, same, Holdings.grant_release]
            exact .unwatched allowed (watch.symm.trans watchable)
        | none =>
            dsimp only
            rcases stored : buffer.holdings.backend.run
              (buffer.map.storeEvent request.cpu buffer.holdings.nextFd) with ⟨error | _, after⟩
            · obtain ⟨changed, mapped, left⟩ := onMap_of_run (backend.symm ▸ stored)
              have offered := left.trans (congrArg (Holdings.withBackend · after) added)
              simp only [mapped]
              rw [abandon_offered tended before offered]
              exact .unstored allowed (watch.symm.trans watchable) stored
            · obtain ⟨changed, mapped, left⟩ := onMap_of_run (backend.symm ▸ stored)
              have offered := left.trans (congrArg (Holdings.withBackend · after) added)
              simp only [mapped]
              rw [install_offered tended rfl offered]
              exact .placed allowed (watch.symm.trans watchable) stored

theorem openOne_opens {buffer : PerfBuffer ρ} (tended : buffer.holdings.Tended)
    (request : RingRequest) :
    buffer.holdings.OpensOne request.cpu (buffer.openOne request).2.holdings := by
  by_cases opened : buffer.holdings.watched = none
  · have closed : buffer.watched = none := opened
    simp only [openOne, closed]
    exact .refused
  · exact (openOne_tries tended opened request).opens opened

theorem openEach_keeps {kept : Holdings → Prop}
    (tended : ∀ {holdings}, kept holdings → holdings.Tended)
    (opens : ∀ {holdings after cpu}, holdings.OpensOne cpu after → kept holdings → kept after)
    {buffer : PerfBuffer ρ} (holds : kept buffer.holdings) (options : PerfOptions)
    (cpus : List Cpu) : kept (buffer.openEach options cpus).2.holdings := by
  induction cpus generalizing buffer with
  | nil => exact holds
  | cons cpu rest ih =>
      have next := opens (openOne_opens (tended holds) ⟨cpu, options.pages, options.wakeup⟩) holds
      rw [openEach]
      split
      · next outcome => rwa [outcome] at next
      · next outcome =>
          rw [outcome] at next
          exact ih next

theorem openOn_keeps {kept : Holdings → Prop} {receiver : Nat}
    (tended : ∀ {holdings}, kept holdings → holdings.Tended)
    (opens : ∀ {holdings after cpu}, holdings.OpensOne cpu after → kept holdings → kept after)
    (starts : ∀ {holdings : Holdings}, holdings.readers = [] → kept holdings →
      kept (holdings.start receiver))
    {buffer : PerfBuffer ρ} (holds : kept buffer.holdings) (cpus : List Cpu)
    (options : PerfOptions) : kept (buffer.openOn cpus receiver options).2.holdings := by
  rw [openOn]
  split
  · exact holds
  · split
    · exact holds
    · next fresh =>
        rw [not_or, not_not] at fresh
        have started : kept ({ buffer with watched := some [], receiver := some receiver } :
            PerfBuffer ρ).holdings := starts fresh.2 holds
        have opened := openEach_keeps tended opens started options cpus
        split
        · next outcome => rwa [outcome] at opened
        · next outcome => rwa [outcome] at opened

theorem openOn_tended {buffer : PerfBuffer ρ} (tended : buffer.holdings.Tended)
    (cpus : List Cpu) (receiver : Nat) (options : PerfOptions) :
    (buffer.openOn cpus receiver options).2.holdings.Tended :=
  openOn_keeps id Holdings.OpensOne.tended (fun none tended => tended.start none receiver) tended
    cpus options

theorem openOn_sound {buffer : PerfBuffer ρ} (sound : buffer.holdings.Sound initial reported)
    (cpus : List Cpu) (receiver : Nat) (options : PerfOptions) :
    (buffer.openOn cpus receiver options).2.holdings.Sound initial reported := by
  refine openOn_keeps Holdings.Sound.tended Holdings.OpensOne.sound ?_ sound cpus options
  intro holdings none sound
  obtain ⟨slots, holds, entries⟩ := sound.entries
  exact (sound.tended.start none receiver).sound sound.keys holds entries

theorem openEach_ne_alreadyOpen (buffer : PerfBuffer ρ) (options : PerfOptions) (cpus : List Cpu)
    (table : String) : (buffer.openEach options cpus).1 ≠ .error (.alreadyOpen table) := by
  induction cpus generalizing buffer with
  | nil => exact fun same => nomatch same
  | cons cpu rest ih =>
      rw [openEach]
      split
      · exact fun same => nomatch same
      · exact ih _

theorem openOn_ne_alreadyOpen {buffer : PerfBuffer ρ} (shut : buffer.isOpen = false)
    (none : buffer.readers = []) (cpus : List Cpu) (receiver : Nat) (options : PerfOptions)
    (table : String) : (buffer.openOn cpus receiver options).1 ≠ .error (.alreadyOpen table) := by
  rw [openOn, PerfOptions.validate]
  by_cases pages : options.pages = bitRange options.pages.log2
  · rw [if_pos pages]
    dsimp only
    rw [if_neg (by simp [shut, none])]
    have opened := openEach_ne_alreadyOpen
      { buffer with watched := some [], receiver := some receiver } options cpus table
    split
    · next outcome => rwa [outcome] at opened
    · exact fun same => nomatch same
  · rw [if_neg pages]
    exact fun same => nomatch same

theorem openAll_tended {buffer : PerfBuffer ρ} (tended : buffer.holdings.Tended)
    (online : Except Errno Bytes) (receiver : Nat) (options : PerfOptions) :
    (buffer.openAll online receiver options).2.holdings.Tended := by
  rw [openAll]
  split
  · exact tended
  · exact tended
  · next cpus _ _ => exact openOn_tended tended cpus receiver options

theorem openAll_sound {buffer : PerfBuffer ρ} (sound : buffer.holdings.Sound initial reported)
    (online : Except Errno Bytes) (receiver : Nat) (options : PerfOptions) :
    (buffer.openAll online receiver options).2.holdings.Sound initial reported := by
  rw [openAll]
  split
  · exact sound
  · exact sound
  · next cpus _ _ => exact openOn_sound sound cpus receiver options

theorem unwatch_frame (buffer : PerfBuffer ρ) (fd : Nat) :
    ∃ watched, (buffer.unwatch fd).2.holdings = buffer.holdings.withWatched watched := by
  rw [unwatch]
  split
  · exact ⟨buffer.watched, rfl⟩
  · split
    · exact ⟨_, rfl⟩
    · exact ⟨buffer.watched, rfl⟩

theorem release_framed {buffer changed : PerfBuffer ρ} {reader : PerfReader} {rest : List Watch}
    {watched : Option (List Watch)} {after : Simulation}
    (books : buffer.holdings.Books (reader.watch :: rest))
    (same : changed.holdings = (buffer.holdings.withWatched watched).withBackend after) :
    (changed.release reader.fd).holdings.map = buffer.holdings.map ∧
      (changed.release reader.fd).holdings.readers = buffer.holdings.readers ∧
      (changed.release reader.fd).holdings.Books rest ∧
      (changed.release reader.fd).holdings.backend = after := by
  have kept : changed.holdings.Books (reader.watch :: rest) := by
    rw [same]
    exact books.congr rfl rfl rfl rfl
  have live := kept.rings.mem_iff.2 List.mem_cons_self
  have released : (changed.release reader.fd).holdings =
      changed.holdings.release [reader.watch] := release_holdings live kept.ring_numbers
  refine ⟨?_, ?_, released ▸ kept.release (.refl _), ?_⟩
  · rw [released, same]
    rfl
  · rw [released, same]
    rfl
  · rw [released, same]
    rfl

theorem closeOne_frees {buffer : PerfBuffer ρ} {reader : PerfReader} {rest : List Watch}
    (books : buffer.holdings.Books (reader.watch :: rest)) :
    ∃ failures closed erased after, buffer.closeOne reader = (failures, closed) ∧
      buffer.holdings.backend.run (buffer.holdings.map.eraseEvent reader.cpu) = (erased, after) ∧
      (∀ error, erased = .error error → s!"{reader.cpu.label}: {error.message}" ∈ failures) ∧
      closed.holdings.map = buffer.holdings.map ∧
      closed.holdings.readers = buffer.holdings.readers ∧ closed.holdings.Books rest ∧
      closed.holdings.backend = after := by
  obtain ⟨watched, first⟩ := buffer.unwatch_frame reader.reported
  cases unwatched : buffer.unwatch reader.reported with
  | mk result started =>
      rw [unwatched] at first
      dsimp only at first
      have map : started.map = buffer.map := congrArg Holdings.map first
      have backend : started.holdings.backend = buffer.holdings.backend := by
        rw [first]
        rfl
      rcases erased : buffer.holdings.backend.run (buffer.map.eraseEvent reader.cpu) with
        ⟨outcome, after⟩
      have started_erased := erased
      rw [← backend, ← map] at started_erased
      obtain ⟨changed, mapped, left⟩ := onMap_of_run started_erased
      rw [first] at left
      obtain ⟨sameMap, sameReaders, released, held⟩ := release_framed books left
      simp only [closeOne, unwatched, mapped]
      refine ⟨_, _, outcome, after, rfl, erased, ?_, sameMap, sameReaders, released, held⟩
      rintro error rfl
      exact List.mem_append_right _ (List.mem_singleton_self _)

theorem closeOne_clears {buffer : PerfBuffer ρ} {reader : PerfReader} {rest : List Watch}
    {slots : Array (Option Bytes)} (keys : buffer.holdings.map.keySize = 4)
    (books : buffer.holdings.Books (reader.watch :: rest))
    (holds : buffer.holdings.backend.HoldsSlots slots) :
    ∃ failures closed after, buffer.closeOne reader = (failures, closed) ∧
      closed.holdings.map = buffer.holdings.map ∧
      closed.holdings.readers = buffer.holdings.readers ∧ closed.holdings.Books rest ∧
      closed.holdings.backend.HoldsSlots after ∧ Cleared [reader] failures slots after := by
  obtain ⟨failures, closed, erased, last, closing, ran, listed, map, readers, released, rfl⟩ :=
    closeOne_frees books
  rcases holds.eraseEvent keys reader.cpu with
    ⟨errno, after, failed, kept⟩ | ⟨after, removed, inside, set⟩
  · rw [ran] at failed
    obtain ⟨rfl, rfl⟩ := Prod.mk.inj failed
    refine ⟨failures, closed, slots, closing, map, readers, released, kept, rfl, fun index => ?_⟩
    refine .inr ⟨rfl, fun other member _ => ⟨errno, ?_⟩⟩
    rw [List.mem_singleton.1 member]
    exact listed _ rfl
  · rw [ran] at removed
    obtain ⟨rfl, rfl⟩ := Prod.mk.inj removed
    refine ⟨failures, closed, _, closing, map, readers, released, set, ?_, fun index => ?_⟩
    · exact Array.size_setIfInBounds ..
    · rw [Array.getElem?_setIfInBounds]
      by_cases here : reader.cpu.toNat = index
      · rw [if_pos here, if_pos (here ▸ inside)]
        exact .inl rfl
      · rw [if_neg here]
        refine .inr ⟨rfl, fun other member taken => absurd taken ?_⟩
        rwa [List.mem_singleton.1 member]

theorem closeEach_frees {buffer : PerfBuffer ρ} {readers : List PerfReader}
    (books : buffer.holdings.Books (readers.map PerfReader.watch)) :
    (buffer.closeEach readers).2.holdings.readers = buffer.holdings.readers ∧
      (buffer.closeEach readers).2.holdings.Books [] := by
  induction readers generalizing buffer with
  | nil => exact ⟨rfl, books⟩
  | cons reader rest ih =>
      obtain ⟨failures, closed, _, _, first, -, -, -, kept, left, -⟩ := closeOne_frees books
      obtain ⟨lastReaders, none⟩ := ih left
      rw [closeEach, first]
      exact ⟨lastReaders.trans kept, none⟩

theorem close_tended {buffer : PerfBuffer ρ} (tended : buffer.holdings.Tended) :
    buffer.close.2.holdings.Tended ∧ buffer.close.2.readers = [] ∧
      buffer.close.2.host.rings = [] := by
  have begun : ({ buffer with readers := [] } : PerfBuffer ρ).holdings.Books
      (buffer.readers.map PerfReader.watch) := tended.books.congr rfl rfl rfl rfl
  obtain ⟨kept, books⟩ := closeEach_frees begun
  rw [close]
  generalize ({ buffer with readers := [] } : PerfBuffer ρ).closeEach buffer.readers = closing at *
  obtain ⟨failures, closed⟩ := closing
  have none : closed.readers = [] := kept
  have nothing : closed.host.rings = [] := by simpa [holdings] using books.rings
  refine ⟨⟨?_, ?_, fun _ => ⟨none, rfl⟩, ?_⟩, none, nothing⟩
  · show closed.readers.Pairwise _
    rw [none]
    exact .nil
  · have unheld : closed.readers.map PerfReader.watch = [] := by rw [none, List.map_nil]
    rw [← unheld] at books
    exact books.congr rfl rfl rfl rfl
  · intro watches watching
    exact absurd watching (Option.some_ne_none _).symm

theorem closeEach_clears {buffer : PerfBuffer ρ} {readers : List PerfReader}
    {slots : Array (Option Bytes)} (keys : buffer.holdings.map.keySize = 4)
    (books : buffer.holdings.Books (readers.map PerfReader.watch))
    (holds : buffer.holdings.backend.HoldsSlots slots) :
    ∃ failures closed after, buffer.closeEach readers = (failures, closed) ∧
      closed.holdings.map = buffer.holdings.map ∧
      closed.holdings.readers = buffer.holdings.readers ∧ closed.holdings.Books [] ∧
      closed.holdings.backend.HoldsSlots after ∧ Cleared readers failures slots after := by
  induction readers generalizing buffer slots with
  | nil => exact ⟨[], buffer, slots, rfl, rfl, rfl, books, holds, rfl, by simp⟩
  | cons reader rest ih =>
      obtain ⟨failures, closed, between, first, map, kept, left, held, begun⟩ :=
        closeOne_clears keys books holds
      obtain ⟨more, ended, after, others, lastMap, lastReaders, none, last, cleared⟩ :=
        ih (map.symm ▸ keys) left held
      rw [closeEach, first]
      simp only [others]
      exact ⟨_, ended, after, rfl, lastMap.trans map, lastReaders.trans kept, none, last,
        begun.trans cleared⟩

/-- Closing leaves nothing open, whatever fails; a slot that could not be emptied is reported. -/
theorem close_sound {buffer : PerfBuffer ρ} (sound : buffer.holdings.Sound initial reported) :
    ∃ failures closed, buffer.close = (closingResult failures, closed) ∧
      closed.watched = none ∧ closed.readers = [] ∧ closed.receiver = none ∧
      closed.host.rings = [] ∧ closed.holdings.opened.Perm closed.holdings.dropped ∧
      ∀ extended : Nat → Bytes → Prop,
        (∀ index entry, reported index entry → extended index entry) →
        (∀ reader ∈ buffer.readers, ∀ errno, reader.removalFailure errno ∈ failures →
          extended reader.cpu.toNat (wordBytes 4 reader.fd)) →
        closed.holdings.Sound initial extended := by
  obtain ⟨slots, holds, entries⟩ := sound.entries
  obtain ⟨failures, closed, after, closing, map, readers, books, held, cleared⟩ :=
    @closeEach_clears _ { buffer with readers := [] } buffer.readers slots sound.keys
      (sound.books.congr rfl rfl rfl rfl) holds
  have ends : buffer.close =
      (closingResult failures, { closed with watched := .none, receiver := .none }) := by
    simp only [close, closing]
  have shut := close_tended sound.tended
  rw [ends] at shut
  obtain ⟨tended, none, nothing⟩ := shut
  have settled : closed.holdings.opened.Perm closed.holdings.dropped := by
    simpa using books.balance
  refine ⟨failures, _, ends, rfl, none, rfl, nothing, settled, ?_⟩
  intro extended kept added
  have left := entries.clear cleared kept added
  rw [← none] at left
  exact tended.sound ((congrArg Descriptor.keySize map).trans sound.keys) held left

section Draining

variable [RingContent ρ]

theorem drainCpu_holdings (buffer : PerfBuffer ρ) (cpu : Cpu) :
    (buffer.drainCpu cpu).2.holdings = buffer.holdings := by
  rw [drainCpu]
  split
  · split
    · rfl
    · next reader _ _ _ ring _ =>
        have kept := buffer.setContent_holdings reader.fd (RingContent.drain ring.content).2
        dsimp only
        split <;> exact kept
  · rfl

theorem drainEach_holdings (buffer : PerfBuffer ρ) (cpus : List Cpu) :
    (buffer.drainEach cpus).2.holdings = buffer.holdings := by
  induction cpus generalizing buffer with
  | nil => rfl
  | cons cpu rest ih =>
      have first := buffer.drainCpu_holdings cpu
      rw [drainEach]
      split
      · next outcome => rwa [outcome] at first
      · next drained outcome =>
          rw [outcome] at first
          have others := ih drained
          split
          · next later =>
              rw [later] at others
              exact others.trans first
          · next later =>
              rw [later] at others
              exact others.trans first

theorem poll_holdings (buffer : PerfBuffer ρ) : buffer.poll.2.holdings = buffer.holdings := by
  rw [poll]
  split
  · rfl
  · have drained := drainEach_holdings ({ buffer with host := { buffer.host with
      arrivals := (buffer.readyWatches.take buffer.readers.length).map Watch.fd } })
        ((buffer.readyWatches.take buffer.readers.length).map Watch.cpu)
    dsimp only
    split
    · next outcome => rwa [outcome] at drained
    · next outcome => rwa [outcome] at drained

theorem awaitPoll_holdings (buffer : PerfBuffer ρ) :
    buffer.awaitPoll.2.holdings = buffer.holdings := by
  rw [awaitPoll]
  split
  · exact buffer.poll_holdings
  · rfl

end Draining

end PerfBuffer

end KernelMaps
