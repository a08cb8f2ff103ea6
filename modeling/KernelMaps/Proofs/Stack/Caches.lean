import KernelMaps.Codec.Hex
import KernelMaps.Map.Simulation
import KernelMaps.Proofs.Refinement
import KernelMaps.Stack.Trace
import Mathlib.Data.Finset.Dedup
import Mathlib.Data.Set.Card

/-!
The symbol caches of a stack table. What is asked of the symbolizer is written down, newest first,
and tells which caches are live and what they have become: one is live from its creation to its
release, and there are never two of one process.
-/

namespace KernelMaps

namespace SymbolCaches

variable {χ : Type} (caches : SymbolCaches χ)

theorem find?_erase (pid other : Pid) :
    (caches.erase pid).find? other = if other = pid then none else caches.find? other := by
  rw [find?, find?, erase, List.find?_filter]
  split
  · next same =>
      rw [Option.map_eq_none_iff, List.find?_eq_none]
      simp [same]
  · next differs =>
      congr 2
      funext entry
      by_cases here : entry.1 = other
      · simp [here, differs]
      · simp [here]

theorem find?_insert (pid other : Pid) (cache : χ) :
    (caches.insert pid cache).find? other =
      if other = pid then some cache else caches.find? other := by
  have others := find?_erase caches pid other
  rw [find?] at others
  rw [find?, insert, List.find?_cons]
  by_cases same : other = pid
  · simp [same]
  · have differs : (pid == other) = false := by simpa using Ne.symm same
    rw [differs, others, if_neg same, if_neg same]

theorem nodup_erase {caches : SymbolCaches χ} (distinct : (caches.map Prod.fst).Nodup) (pid : Pid) :
    ((caches.erase pid).map Prod.fst).Nodup :=
  distinct.sublist (List.Sublist.map _ List.filter_sublist)

theorem nodup_insert {caches : SymbolCaches χ} (distinct : (caches.map Prod.fst).Nodup) (pid : Pid)
    (cache : χ) : ((caches.insert pid cache).map Prod.fst).Nodup := by
  rw [insert, List.map_cons, List.nodup_cons]
  refine ⟨?_, nodup_erase distinct pid⟩
  simp [erase]

theorem isSome_find?_iff (pid : Pid) :
    (caches.find? pid).isSome ↔ pid ∈ caches.map Prod.fst := by
  simp [find?, List.find?_isSome]

end SymbolCaches

/-! Calls on a table. -/

inductive StackCall where
  | raw (id : StackId)
  | addresses (id : StackId)
  | symbols (id : StackId) (pid : Pid)
  | release (pid : Pid)
  | clear

inductive StackAnswer where
  | frames (stored : Option (List UInt64))
  | addresses (found : List UInt64)
  | names (texts : List String)
  | released (wasLive : Bool)
  | cleared

namespace StackTable

variable {σ χ β : Type} [Backend β]

def answer (symbolizer : Symbolizer σ χ) (call : StackCall) (state : StackTable σ χ × β) :
    Except MapError StackAnswer × (StackTable σ χ × β) :=
  match call with
  | .raw id =>
      let (outcome, backend) := Backend.run state.2 (state.1.raw id)
      (outcome.map .frames, (state.1, backend))
  | .addresses id =>
      let (outcome, backend) := Backend.run state.2 (state.1.addresses id)
      (outcome.map .addresses, (state.1, backend))
  | .symbols id pid =>
      match Backend.run state.2 (state.1.symbols symbolizer id pid) with
      | (.ok (names, table, _), backend) => (.ok (.names names), (table, backend))
      | (.error error, backend) => (.error error, (state.1, backend))
  | .release pid =>
      let (wasLive, table, _) := state.1.release pid
      (.ok (.released wasLive), (table, state.2))
  | .clear =>
      let (outcome, backend) := Backend.run state.2 state.1.clear
      (outcome.map fun _ => .cleared, (state.1, backend))

def isLive (table : StackTable σ χ) (pid : Pid) : Bool :=
  (table.caches.find? pid).isSome

/-- What naming some addresses for a process asks of the symbolizer, in order. Only a stack with an
address makes a cache, and only if there is none for its process. -/
def naming (table : StackTable σ χ) (pid : Pid) (addresses : List UInt64) : List SymbolEvent :=
  if addresses = [] then []
  else (if table.isLive pid then [] else [.created pid table.options]) ++
    addresses.map (.resolved pid)

def asks (table : StackTable σ χ) (call : StackCall) (backend : β) : List SymbolEvent :=
  match call with
  | .symbols id pid =>
      match (Backend.run backend (table.addresses id)).1 with
      | .ok addresses => table.naming pid.normalized addresses
      | .error _ => []
  | .release pid => if table.isLive pid.normalized then [.released pid.normalized] else []
  | .raw _ | .addresses _ | .clear => []

def cacheFor (table : StackTable σ χ) (symbolizer : Symbolizer σ χ) (pid : Pid) : χ :=
  (table.caches.find? pid).getD (symbolizer.create table.symbolizing pid table.options).1

def stateFor (table : StackTable σ χ) (symbolizer : Symbolizer σ χ) (pid : Pid) : σ :=
  if table.isLive pid then table.symbolizing
  else (symbolizer.create table.symbolizing pid table.options).2

end StackTable

/-! Histories. -/

namespace Symbolizer

variable {σ χ : Type}

/-- What a symbolizer has become after some events, the newest of which comes first. -/
def stateAfter (symbolizer : Symbolizer σ χ) : List SymbolEvent → σ
  | [] => symbolizer.start
  | .created pid options :: earlier =>
      (symbolizer.create (symbolizer.stateAfter earlier) pid options).2
  | .resolved _ _ :: earlier | .released _ :: earlier => symbolizer.stateAfter earlier

/-- The live cache of a process after some events. -/
def cacheAfter (symbolizer : Symbolizer σ χ) (pid : Pid) : List SymbolEvent → Option χ
  | [] => none
  | .created other options :: earlier =>
      if other = pid then some (symbolizer.create (symbolizer.stateAfter earlier) other options).1
      else symbolizer.cacheAfter pid earlier
  | .resolved other address :: earlier =>
      let cache := symbolizer.cacheAfter pid earlier
      if other = pid then cache.map fun cache => (symbolizer.resolve cache address).2 else cache
  | .released other :: earlier =>
      if other = pid then none else symbolizer.cacheAfter pid earlier

/-- Whether each event is one that could follow the ones before it: only what is not live is created,
with the options of the table, and only what is live resolves or is released. -/
def Coherent (symbolizer : Symbolizer σ χ) (options : SymbolOptions) : List SymbolEvent → Prop
  | [] => True
  | .created pid given :: earlier =>
      (given = options ∧ pid.normalized = pid ∧ symbolizer.cacheAfter pid earlier = none) ∧
        symbolizer.Coherent options earlier
  | .resolved pid _ :: earlier | .released pid :: earlier =>
      (symbolizer.cacheAfter pid earlier).isSome ∧ symbolizer.Coherent options earlier

variable {symbolizer : Symbolizer σ χ} {options : SymbolOptions}

theorem isSome_cacheAfter_append {pid : Pid} {newer older : List SymbolEvent}
    (unreleased : SymbolEvent.released pid ∉ newer)
    (live : (symbolizer.cacheAfter pid older).isSome) :
    (symbolizer.cacheAfter pid (newer ++ older)).isSome := by
  induction newer with
  | nil => exact live
  | cons event newer ih =>
      have others := ih fun member => unreleased (List.mem_cons_of_mem _ member)
      cases event with
      | created other given =>
          simp only [List.cons_append, cacheAfter]
          split
          · rfl
          · exact others
      | resolved other address =>
          simp only [List.cons_append, cacheAfter]
          split
          · rwa [Option.isSome_map]
          · exact others
      | released other =>
          have differs : other ≠ pid := by
            rintro rfl
            exact unreleased List.mem_cons_self
          simp only [List.cons_append, cacheAfter, if_neg differs]
          exact others

theorem Coherent.of_append {newer older : List SymbolEvent}
    (coherent : symbolizer.Coherent options (newer ++ older)) :
    symbolizer.Coherent options older := by
  induction newer with
  | nil => exact coherent
  | cons event newer ih =>
      cases event with
      | created pid given => exact ih coherent.2
      | resolved pid address => exact ih coherent.2
      | released pid => exact ih coherent.2

/-- Between two creations for a process there is a release of it. -/
theorem Coherent.released_between {newer between older : List SymbolEvent} {pid : Pid}
    {first second : SymbolOptions}
    (coherent : symbolizer.Coherent options
      (newer ++ .created pid second :: (between ++ .created pid first :: older))) :
    SymbolEvent.released pid ∈ between := by
  by_contra unreleased
  have created : (symbolizer.cacheAfter pid (.created pid first :: older)).isSome := by
    simp [cacheAfter]
  have live := isSome_cacheAfter_append unreleased created
  obtain ⟨-, -, free⟩ := coherent.of_append.1
  rw [free] at live
  exact Bool.false_ne_true live

theorem Coherent.options_of_created {events : List SymbolEvent}
    (coherent : symbolizer.Coherent options events) {pid : Pid} {given : SymbolOptions}
    (member : SymbolEvent.created pid given ∈ events) : given = options ∧ pid.normalized = pid := by
  obtain ⟨newer, older, rfl⟩ := List.append_of_mem member
  obtain ⟨⟨same, normal, -⟩, -⟩ := coherent.of_append
  exact ⟨same, normal⟩

theorem cacheAfter_resolved {pid : Pid} {cache : χ} {events : List SymbolEvent}
    (live : symbolizer.cacheAfter pid events = some cache) (addresses : List UInt64) :
    symbolizer.cacheAfter pid ((addresses.map (.resolved pid)).reverse ++ events) =
      some (resolveEach symbolizer.resolve cache addresses).2 := by
  induction addresses generalizing cache events with
  | nil => exact live
  | cons address rest ih =>
      have first : symbolizer.cacheAfter pid (.resolved pid address :: events) =
          some (symbolizer.resolve cache address).2 := by
        simp [cacheAfter, live]
      rw [List.map_cons, List.reverse_cons, List.append_assoc]
      exact ih first

theorem cacheAfter_resolved_of_ne {pid other : Pid} (differs : pid ≠ other)
    (addresses : List UInt64) (events : List SymbolEvent) :
    symbolizer.cacheAfter other ((addresses.map (.resolved pid)).reverse ++ events) =
      symbolizer.cacheAfter other events := by
  induction addresses generalizing events with
  | nil => rfl
  | cons address rest ih =>
      rw [List.map_cons, List.reverse_cons, List.append_assoc, ih]
      simp [cacheAfter, differs]

theorem stateAfter_resolved (pid : Pid) (addresses : List UInt64) (events : List SymbolEvent) :
    symbolizer.stateAfter ((addresses.map (.resolved pid)).reverse ++ events) =
      symbolizer.stateAfter events := by
  induction addresses generalizing events with
  | nil => rfl
  | cons address rest ih =>
      rw [List.map_cons, List.reverse_cons, List.append_assoc, ih]
      rfl

theorem Coherent.resolved {pid : Pid} {events : List SymbolEvent}
    (coherent : symbolizer.Coherent options events)
    (live : (symbolizer.cacheAfter pid events).isSome) (addresses : List UInt64) :
    symbolizer.Coherent options ((addresses.map (.resolved pid)).reverse ++ events) := by
  induction addresses generalizing events with
  | nil => exact coherent
  | cons address rest ih =>
      rw [List.map_cons, List.reverse_cons, List.append_assoc]
      refine ih ⟨live, coherent⟩ ?_
      simpa [cacheAfter] using live

end Symbolizer

/-! Tables. -/

theorem Pid.normalized_normalized (pid : Pid) : pid.normalized.normalized = pid.normalized := by
  by_cases negative : pid.number < 0
  · have kernel : pid.normalized = Pid.kernel := if_pos negative
    rw [kernel]
    rfl
  · have same : pid.normalized = pid := if_neg negative
    rw [same, same]

namespace StackTable

variable {σ χ β : Type} [Backend β] {symbolizer : Symbolizer σ χ} {options : SymbolOptions}

/-- Whether the caches of a table are those that its history tells of, each of them once. -/
structure Told (symbolizer : Symbolizer σ χ) (map : Descriptor) (options : SymbolOptions)
    (table : StackTable σ χ) : Prop where
  sameMap : table.map = map
  sameOptions : table.options = options
  symbolizing : table.symbolizing = symbolizer.stateAfter table.events
  coherent : symbolizer.Coherent options table.events
  caches : ∀ pid, table.caches.find? pid = symbolizer.cacheAfter pid table.events
  distinct : (table.caches.map Prod.fst).Nodup

theorem cacheCount_eq {table : StackTable σ χ} (distinct : (table.caches.map Prod.fst).Nodup) :
    table.cacheCount = {pid | table.isLive pid = true}.ncard := by
  have live : {pid | table.isLive pid = true} = ↑(table.caches.map Prod.fst).toFinset := by
    ext pid
    simp [isLive, SymbolCaches.isSome_find?_iff]
  rw [live, Set.ncard_coe_finset, List.toFinset_card_of_nodup distinct, List.length_map, cacheCount]

theorem obtain_eq (table : StackTable σ χ) (symbolizer : Symbolizer σ χ) (pid : Pid) :
    ∃ lines, table.obtain symbolizer pid = (table.cacheFor symbolizer pid, { table with
      symbolizing := table.stateFor symbolizer pid
      events := (if table.isLive pid then [] else [.created pid table.options]) ++ table.events },
      lines) := by
  rw [StackTable.obtain, cacheFor, stateFor, isLive]
  cases table.caches.find? pid with
  | none => exact ⟨_, rfl⟩
  | some cache => exact ⟨_, rfl⟩

theorem reverse_naming {addresses : List UInt64} (filled : addresses ≠ []) (table : StackTable σ χ)
    (pid : Pid) (earlier : List SymbolEvent) :
    (table.naming pid addresses).reverse ++ earlier =
      (addresses.map (.resolved pid)).reverse ++
        ((if table.isLive pid then [] else [.created pid table.options]) ++ earlier) := by
  rw [naming, if_neg filled, List.reverse_append, List.append_assoc]
  split <;> rfl

theorem name_of_ne_nil {addresses : List UInt64} (filled : addresses ≠ []) (table : StackTable σ χ)
    (symbolizer : Symbolizer σ χ) (pid : Pid) :
    ∃ lines, table.name symbolizer pid addresses =
      let named :=
        resolveEach symbolizer.resolve (table.cacheFor symbolizer pid.normalized) addresses
      (named.1, { table with
        symbolizing := table.stateFor symbolizer pid.normalized
        caches := table.caches.insert pid.normalized named.2
        events := (table.naming pid.normalized addresses).reverse ++ table.events }, lines) := by
  have nonempty : addresses.isEmpty = false := by simpa using filled
  obtain ⟨lines, obtained⟩ := table.obtain_eq symbolizer pid.normalized
  refine ⟨lines, ?_⟩
  simp only [StackTable.name, nonempty, Bool.false_eq_true, if_false, obtained,
    reverse_naming filled]

namespace Told

variable {map : Descriptor} {table : StackTable σ χ}

theorem of_ofMap (made : ofMap map options symbolizer = .ok table) :
    Told symbolizer map options table := by
  rw [ofMap, bind_eq_ok] at made
  obtain ⟨_, _, same⟩ := made
  obtain rfl := Except.ok.inj same
  exact ⟨rfl, rfl, rfl, trivial, fun _ => rfl, List.nodup_nil⟩

theorem isLive_eq (told : Told symbolizer map options table) (pid : Pid) :
    table.isLive pid = (symbolizer.cacheAfter pid table.events).isSome := by
  rw [isLive, told.caches]

theorem isNone_of_not_live (told : Told symbolizer map options table) {pid : Pid}
    (free : ¬table.isLive pid = true) : symbolizer.cacheAfter pid table.events = none := by
  rw [told.isLive_eq, Option.not_isSome_iff_eq_none] at free
  exact free

theorem resolving (told : Told symbolizer map options table) {pid : Pid}
    (normal : pid.normalized = pid) :
    let before := (if table.isLive pid then [] else [.created pid table.options]) ++ table.events
    symbolizer.Coherent options before ∧
      symbolizer.stateAfter before = table.stateFor symbolizer pid ∧
      symbolizer.cacheAfter pid before = some (table.cacheFor symbolizer pid) ∧
      ∀ other, other ≠ pid →
        symbolizer.cacheAfter other before = symbolizer.cacheAfter other table.events := by
  by_cases live : table.isLive pid = true
  · rw [if_pos live, List.nil_append]
    rw [isLive] at live
    obtain ⟨cache, found⟩ := Option.isSome_iff_exists.1 live
    refine ⟨told.coherent, ?_, ?_, fun _ _ => rfl⟩
    · rw [stateFor, isLive, if_pos live, told.symbolizing]
    · rw [← told.caches, cacheFor, found, Option.getD_some]
  · have free := told.isNone_of_not_live live
    rw [if_neg live]
    refine ⟨⟨⟨told.sameOptions, normal, free⟩, told.coherent⟩, ?_, ?_, ?_⟩
    · rw [stateFor, if_neg live, told.symbolizing]
      rfl
    · rw [← told.caches] at free
      simp [Symbolizer.cacheAfter, cacheFor, free, told.symbolizing]
    · intro other differs
      simp [Symbolizer.cacheAfter, Ne.symm differs]

theorem name (told : Told symbolizer map options table) (pid : Pid) (addresses : List UInt64) :
    Told symbolizer map options (table.name symbolizer pid addresses).2.1 := by
  by_cases empty : addresses = []
  · subst empty
    exact told
  · obtain ⟨lines, named⟩ := name_of_ne_nil empty table symbolizer pid
    obtain ⟨coherent, become, live, others⟩ := told.resolving pid.normalized_normalized
    have events := table.reverse_naming empty pid.normalized table.events
    rw [named]
    refine ⟨told.sameMap, told.sameOptions, ?_, ?_, ?_,
      SymbolCaches.nodup_insert told.distinct _ _⟩
    · rw [events, Symbolizer.stateAfter_resolved, become]
    · rw [events]
      exact coherent.resolved (by rw [live]; rfl) addresses
    · intro other
      rw [SymbolCaches.find?_insert, events]
      split
      · next same => rw [same, Symbolizer.cacheAfter_resolved live]
      · next differs =>
          rw [Symbolizer.cacheAfter_resolved_of_ne (Ne.symm differs), others other differs,
            told.caches]

theorem release (told : Told symbolizer map options table) (pid : Pid) :
    Told symbolizer map options (table.release pid).2.1 := by
  rw [StackTable.release]
  rcases found : table.caches.find? pid.normalized with _ | cache
  · exact told
  · have live := told.caches pid.normalized
    rw [found] at live
    refine ⟨told.sameMap, told.sameOptions, told.symbolizing,
      ⟨by rw [← live]; rfl, told.coherent⟩, ?_, SymbolCaches.nodup_erase told.distinct _⟩
    intro other
    rw [SymbolCaches.find?_erase, Symbolizer.cacheAfter, told.caches]
    simp only [eq_comm]

end Told

theorem run_symbols (table : StackTable σ χ) (symbolizer : Symbolizer σ χ) (id : StackId) (pid : Pid)
    (backend : β) :
    Backend.run backend (table.symbols symbolizer id pid) =
      match Backend.run backend (table.addresses id) with
      | (.ok addresses, after) => (.ok (table.name symbolizer pid addresses), after)
      | (.error error, after) => (.error error, after) := by
  rw [symbols, Backend.run_bind]
  rcases Backend.run backend (table.addresses id) with ⟨_ | _, _⟩ <;> rfl

/-- One call: the table becomes one whose history tells of its caches again. -/
theorem Told.answer {map : Descriptor} {state : StackTable σ χ × β}
    (told : Told symbolizer map options state.1) (call : StackCall) :
    Told symbolizer map options (StackTable.answer symbolizer call state).2.1 := by
  cases call with
  | raw id => exact told
  | addresses id => exact told
  | symbols id pid =>
      rw [StackTable.answer, run_symbols]
      rcases Backend.run state.2 (state.1.addresses id) with ⟨error | addresses, after⟩
      · exact told
      · exact told.name pid addresses
  | release pid => exact told.release pid
  | clear => exact told

theorem Told.runCalls {map : Descriptor} {state : StackTable σ χ × β}
    (told : Told symbolizer map options state.1) (calls : List StackCall) :
    Told symbolizer map options
      (KernelMaps.runCalls (StackTable.answer symbolizer) calls state).2.1 := by
  induction calls generalizing state with
  | nil => exact told
  | cons call calls ih => exact ih (told.answer call)

/-- What one call does: it asks the symbolizer exactly for what it should and answers from that, and
no cache but that of its process is touched. -/
structure Obeys (symbolizer : Symbolizer σ χ) (state : StackTable σ χ × β) : Prop where
  events : ∀ call, (StackTable.answer symbolizer call state).2.1.events =
    (state.1.asks call state.2).reverse ++ state.1.events
  names : ∀ id pid addresses after,
    Backend.run state.2 (state.1.addresses id) = (.ok addresses, after) →
      (StackTable.answer symbolizer (.symbols id pid) state).1 =
        .ok (.names (resolveEach symbolizer.resolve
          (state.1.cacheFor symbolizer pid.normalized) addresses).1)
  failed : ∀ id pid error after,
    Backend.run state.2 (state.1.addresses id) = (.error error, after) →
      StackTable.answer symbolizer (.symbols id pid) state = (.error error, (state.1, after))
  released : ∀ pid, (StackTable.answer symbolizer (.release pid) state).1 =
    .ok (.released (state.1.isLive pid.normalized))
  freed : ∀ pid, ¬(StackTable.answer symbolizer (.release pid) state).2.1.isLive pid.normalized
  others : ∀ pid other, other ≠ pid.normalized →
    (StackTable.answer symbolizer (.release pid) state).2.1.caches.find? other =
      state.1.caches.find? other

theorem answer_events (symbolizer : Symbolizer σ χ) (call : StackCall) (state : StackTable σ χ × β) :
    (StackTable.answer symbolizer call state).2.1.events =
      (state.1.asks call state.2).reverse ++ state.1.events := by
  cases call with
  | raw id => rfl
  | addresses id => rfl
  | symbols id pid =>
      rw [StackTable.answer, run_symbols, asks]
      rcases Backend.run state.2 (state.1.addresses id) with ⟨error | addresses, after⟩
      · rfl
      · by_cases empty : addresses = []
        · subst empty
          rfl
        · obtain ⟨lines, named⟩ := name_of_ne_nil empty state.1 symbolizer pid
          simp only [named]
  | release pid =>
      rw [StackTable.answer, StackTable.release, asks, isLive]
      cases state.1.caches.find? pid.normalized <;> rfl
  | clear => rfl

theorem obeys (symbolizer : Symbolizer σ χ) (state : StackTable σ χ × β) : Obeys symbolizer state where
  events call := answer_events symbolizer call state
  names id pid addresses after found := by
    simp only [StackTable.answer, run_symbols, found]
    by_cases empty : addresses = []
    · subst empty
      rfl
    · obtain ⟨lines, named⟩ := name_of_ne_nil empty state.1 symbolizer pid
      rw [named]
  failed id pid error after refused := by
    simp only [StackTable.answer, run_symbols, refused]
  released pid := by
    rw [StackTable.answer, StackTable.release, isLive]
    cases state.1.caches.find? pid.normalized <;> rfl
  freed pid := by
    rw [StackTable.answer, StackTable.release]
    rcases found : state.1.caches.find? pid.normalized with _ | cache
    · simp [isLive, found]
    · simp [isLive, SymbolCaches.find?_erase]
  others pid other differs := by
    rw [StackTable.answer, StackTable.release]
    cases state.1.caches.find? pid.normalized with
    | none => rfl
    | some cache => exact (SymbolCaches.find?_erase ..).trans (if_neg differs)

structure Lifecycle (symbolizer : Symbolizer σ χ) (options : SymbolOptions) (table : StackTable σ χ) :
    Prop where
  symbolizing : table.symbolizing = symbolizer.stateAfter table.events
  caches : ∀ pid, table.caches.find? pid = symbolizer.cacheAfter pid table.events
  count : table.cacheCount = {pid | table.isLive pid = true}.ncard
  coherent : symbolizer.Coherent options table.events
  created : ∀ pid given, .created pid given ∈ table.events →
    given = options ∧ pid.normalized = pid
  between : ∀ pid first second newer between older,
    table.events = newer ++ .created pid second :: (between ++ .created pid first :: older) →
      .released pid ∈ between

/-- On every run over a stack table, whatever its map replies, a cache is created for a process exactly
where a stack of it has an address and none is live, and it resolves all addresses of that process in
their order until it is released. -/
theorem symbol_caches_live_until_released {map : Descriptor} {table : StackTable σ χ}
    (made : ofMap map options symbolizer = .ok table) (backend : β) (calls : List StackCall) :
    let state := (KernelMaps.runCalls (StackTable.answer symbolizer) calls (table, backend)).2
    Lifecycle symbolizer options state.1 ∧ Obeys symbolizer state := by
  intro state
  have start : Told symbolizer map options (table, backend).1 := .of_ofMap made
  have told : Told symbolizer map options state.1 := start.runCalls calls
  refine ⟨⟨told.symbolizing, told.caches, cacheCount_eq told.distinct, told.coherent, ?_, ?_⟩,
    obeys symbolizer state⟩
  · intro pid given member
    exact told.coherent.options_of_created member
  · intro pid first second newer between older split
    have coherent := told.coherent
    rw [split] at coherent
    exact coherent.released_between

end StackTable

def traceMap : Descriptor where
  name := "traces"
  kind := .stackTrace
  keySize := 4
  valueSize := 16
  capacity := 8
  fd := 6
  ownsFd := true
  cpuCount := 1
  keyCodec := .hex
  valueCodec := .hex

def oneTrace : OrderedMap :=
  OrderedMap.empty.insert [1, 0, 0, 0] [64, 0, 0, 0, 0, 0, 0, 0, 0, 0, 0, 0, 0, 0, 0, 0]

def countingSymbolizer : Symbolizer Nat Nat where
  start := 0
  create made _ _ := (0, made + 1)
  resolve cache address := (if address = 64 then some "main" else none, cache + 1)

theorem negative_pids_share_cache :
    (∀ pid : Pid, pid.number < 0 → pid.normalized = .kernel) ∧
    ∃ table : StackTable Nat Nat,
      StackTable.ofMap traceMap ⟨true, false⟩ countingSymbolizer = .ok table ∧
      let state := (runCalls (StackTable.answer countingSymbolizer)
        [.symbols ⟨1⟩ ⟨-1⟩, .symbols ⟨2⟩ ⟨5⟩, .symbols ⟨1⟩ ⟨-7⟩, .release ⟨-3⟩, .symbols ⟨1⟩ ⟨-2⟩]
        (table, Simulation.ofStore (.hash 8 oneTrace))).2
      state.1.created = [(.kernel, ⟨true, false⟩), (.kernel, ⟨true, false⟩)] ∧
        state.1.symbolizing = 2 ∧
        StackTable.Lifecycle countingSymbolizer ⟨true, false⟩ state.1 ∧
        StackTable.Obeys countingSymbolizer state := by
  have made : StackTable.ofMap traceMap ⟨true, false⟩ countingSymbolizer =
      .ok (⟨traceMap, ⟨true, false⟩, 0, [], [], _⟩ : StackTable Nat Nat) := rfl
  exact ⟨fun _ negative => if_pos negative, _, made, rfl, rfl,
    StackTable.symbol_caches_live_until_released made _ _⟩

end KernelMaps
