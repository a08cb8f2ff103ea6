import KernelMaps.Proofs.Cli.Messages
import KernelMaps.Proofs.Codec.RoundTrip
import KernelMaps.Proofs.Perf.HandleSizes

/-!
Which texts from outside failures show. What fails below the command line shows the name of the map,
the texts that it was given to read and pieces of the list of CPUs, and nothing else.
-/

namespace KernelMaps

namespace Codec

/-- Whether errors of a codec show no text but the one it was given to read. -/
structure QuotesInput (codec : Codec) : Prop where
  reading : ∀ {text width error}, codec.parse text width = .error error →
    ∀ quoted ∈ error.texts, quoted = text
  writing : ∀ {bytes limit error}, codec.format bytes limit = .error error → error.texts = []

theorem withinLimit_error {text : List Char} {limit : Nat} {error : CodecError}
    (failed : withinLimit text limit = .error error) : error.texts = [] := by
  rw [withinLimit] at failed
  grind [CodecError.texts]

theorem hex_quotesInput : hex.QuotesInput where
  reading {text width error} failed := by
    change readHex text width = .error error at failed
    rw [readHex] at failed
    grind [CodecError.texts, ParseReason.texts]
  writing {bytes limit error} failed := by
    change formatHex bytes limit = .error error at failed
    rw [formatHex_eq] at failed
    exact withinLimit_error failed

theorem integer_quotesInput (signed : Bool) : (integer signed).QuotesInput where
  reading {text width error} failed := by
    change readInteger signed text width = .error error at failed
    rw [readInteger] at failed
    grind [CodecError.texts, ParseReason.texts]
  writing {bytes limit error} failed := by
    change (writeInteger signed bytes >>= fun text => withinLimit text limit) = .error error
      at failed
    cases written : writeInteger signed bytes with
    | ok text =>
        rw [written] at failed
        exact withinLimit_error failed
    | error fault =>
        rw [written] at failed
        obtain rfl : fault = error := Except.error.inj failed
        rw [writeInteger] at written
        grind [CodecError.texts]

end Codec

theorem Codec.render_texts {codec : Codec} (quotes : codec.QuotesInput) {bytes : Bytes}
    {limit : Nat} {error : CodecError} (failed : codec.render bytes limit = .error error) :
    error.texts = [] := by
  simp only [Codec.render, bind, Except.bind] at failed
  split at failed
  · next written =>
      obtain rfl := Except.error.inj failed
      exact quotes.writing written
  · split at failed
    · cases failed
    · obtain rfl := Except.error.inj failed
      rfl

/-- Whether an error shows only texts of a kind, and of a failed close only what was refused. -/
def MapError.Quotes (allowed : String → Prop) (error : MapError) : Prop :=
  error.Reports ∧ ∀ text ∈ error.texts, allowed text

theorem MapError.quotes_of_plain {allowed : String → Prop} {error : MapError}
    (reports : error.Reports) (plain : error.texts = []) : error.Quotes allowed := by
  refine ⟨reports, ?_⟩
  rw [plain]
  exact List.forall_mem_nil _

open MapError (Quotes quotes_of_plain)

section

variable {allowed : String → Prop} {α β : Type}

abbrev Quoting (allowed : String → Prop) (outcome : Except MapError α) : Prop :=
  Attempt.Outcome (fun _ => True) (Quotes allowed) outcome

namespace Attempt

abbrev Quotes (allowed : String → Prop) (attempt : Attempt α) : Prop :=
  attempt.Ends (fun _ => True) (MapError.Quotes allowed)

end Attempt

theorem Quoting.attempt {outcome : Except MapError α} (quoting : Quoting allowed outcome) :
    (liftM outcome : Attempt α).Quotes allowed := by
  cases outcome <;> exact quoting

theorem Quoting.bind {first : Except MapError α} {next : α → Except MapError β}
    (quoting : Quoting allowed first) (rest : ∀ result, Quoting allowed (next result)) :
    Quoting allowed (first >>= next) := by
  cases first with
  | error error => exact quoting
  | ok result => exact rest result

theorem Quoting.mapM {visit : α → Except MapError β} {values : List α}
    (each : ∀ value ∈ values, Quoting allowed (visit value)) :
    Quoting allowed (values.mapM visit) := by
  induction values with
  | nil => trivial
  | cons value rest ih =>
      rw [List.mapM_cons]
      obtain ⟨first, others⟩ := List.forall_mem_cons.1 each
      exact first.bind fun _ => (ih others).bind fun _ => trivial

namespace Descriptor

variable (map : Descriptor)

theorem keyArgument_quotes (key : Bytes) : Quoting allowed (map.keyArgument key) := by
  rw [keyArgument]
  split
  · exact quotes_of_plain trivial rfl
  · trivial

theorem checkKey_quotes (key : Bytes) : Quoting allowed (map.checkKey key) := by
  rw [checkKey]
  split
  · exact quotes_of_plain trivial rfl
  · trivial

theorem handedOut_quotes (operation : Operation) (room : Nat) (reply : Reply) :
    Quoting allowed (handedOut operation room reply) := by
  cases reply with
  | ok bytes => trivial
  | error errno =>
      rw [handedOut]
      split
      · trivial
      · exact quotes_of_plain trivial rfl

theorem lookup_quotes (key : Bytes) : (map.lookup key).Quotes allowed :=
  (map.keyArgument_quotes key).attempt.bind fun _ _ =>
    Attempt.ends_perform_bind fun reply => (handedOut_quotes _ _ reply).attempt

theorem update_quotes (key value : Bytes) (flags : UInt64) :
    (map.update key value flags).Quotes allowed := by
  refine (map.keyArgument_quotes key).attempt.bind fun key _ => ?_
  split
  · exact Attempt.ends_throw (quotes_of_plain trivial rfl)
  · refine Attempt.ends_perform_bind fun reply => ?_
    cases reply with
    | ok _ => exact Attempt.ends_pure trivial
    | error errno => exact Attempt.ends_throw (quotes_of_plain trivial rfl)

theorem delete_quotes (key : Bytes) : (map.delete key).Quotes allowed := by
  refine (map.checkKey_quotes key).attempt.bind fun _ _ => ?_
  refine Attempt.ends_perform_bind fun reply => ?_
  cases reply with
  | ok _ => exact Attempt.ends_pure trivial
  | error errno =>
      dsimp only
      split <;> exact Attempt.ends_throw (quotes_of_plain trivial rfl)

theorem stepKey_quotes (key : Option Bytes) : (map.stepKey key).Quotes allowed :=
  Attempt.ends_perform_bind fun reply => (handedOut_quotes _ _ reply).attempt

theorem nextKey_quotes (key : Bytes) : (map.nextKey key).Quotes allowed :=
  (map.checkKey_quotes key).attempt.bind fun _ _ => map.stepKey_quotes (some key)

end Descriptor

/-! Walks, and clearing. -/

def KeyWalk.StepQuotes (allowed : String → Prop)
    (stepped : Option (Except MapError Bytes) × KeyWalk) : Prop :=
  ∀ error, stepped.1 = some (.error error) → Quotes allowed error

theorem KeyWalk.next_quotes (map : Descriptor) (walk : KeyWalk) :
    (walk.next map).Yields (StepQuotes allowed) := by
  have passed (found : Option Bytes) (after : KeyWalk) :
      StepQuotes allowed (found.map .ok, after) := by
    intro error impossible
    cases found <;> cases impossible
  have failed {error : MapError} (quotes : Quotes allowed error) (after : KeyWalk) :
      StepQuotes allowed (some (.error error), after) := by
    rintro _ ⟨⟩
    exact quotes
  obtain ⟨current, finished⟩ := walk
  cases finished with
  | true => exact passed none _
  | false =>
      cases current with
      | none =>
          have stepped : map.firstKey.Quotes allowed := map.stepKey_quotes none
          refine Access.Yields.bind stepped ?_
          rintro (error | ⟨_ | first⟩) quotes
          · exact failed quotes _
          · exact passed none _
          · exact passed (some first) _
      | some key =>
          have stepped : (map.nextKey key).Quotes allowed := map.nextKey_quotes key
          refine Access.Yields.bind stepped ?_
          rintro (error | ⟨_ | next⟩) quotes
          · exact failed quotes _
          · exact passed none _
          · exact passed (some next) _

theorem collectKeys_quotes {map : Descriptor} {visit : Bytes → Attempt (Option α)}
    (each : ∀ key, (visit key).Quotes allowed) (budget : Nat) :
    (collectKeys map visit budget).Quotes allowed := by
  have step : ∀ state, True → (collectNext map visit state).Ends
      (Sum.elim (fun _ => True) fun _ => True) (Quotes allowed) := by
    intro state _
    have next : (state.1.next map).Yields (KeyWalk.StepQuotes allowed) :=
      KeyWalk.next_quotes map state.1
    refine (Attempt.ends_lift next).bind ?_
    rintro ⟨_ | error | key, walk⟩ quotes
    · exact Attempt.ends_pure trivial
    · exact Attempt.ends_throw (quotes error rfl)
    · refine (each key).bind fun result _ => ?_
      cases result <;> exact Attempt.ends_pure trivial
  exact Attempt.ends_loop (fun _ => True) step budget trivial

theorem clearKeys_quotes (map : Descriptor) (budget : Nat) :
    (clearKeys map budget).Quotes allowed := by
  refine Attempt.ends_loop (fun _ => True) (fun _ _ => ?_) budget trivial
  refine (map.stepKey_quotes none).bind fun found _ => ?_
  cases found with
  | none => exact Attempt.ends_pure trivial
  | some key => exact (map.delete_quotes key).bind fun _ _ => Attempt.ends_pure trivial

theorem deletePresent_quotes (map : Descriptor) (key : Bytes) :
    (deletePresent map key).Quotes allowed := by
  have deleted : (map.delete key).Quotes allowed := map.delete_quotes key
  refine deleted.tryCatch fun error quotes => ?_
  split
  · exact Attempt.ends_pure trivial
  · exact Attempt.ends_throw quotes

theorem clearFrom_quotes (map : Descriptor) (first count : Nat) :
    (clearFrom map first count).Quotes allowed := by
  induction count generalizing first with
  | zero => exact Attempt.ends_pure trivial
  | succ count ih => exact (deletePresent_quotes map _).bind fun _ _ => ih (first + 1)

/-! Access through text. -/

namespace Table

/-- Whether a table is one of a name that may be shown, with codecs that show only their input. -/
structure QuotesInput (table : Table) (allowed : String → Prop) : Prop where
  name : allowed table.map.name
  keyCodec : table.map.keyCodec.QuotesInput
  valueCodec : table.map.valueCodec.QuotesInput

theorem parse_quotes {codec : Codec} (quotes : codec.QuotesInput) {text : String}
    (given : allowed text) (width : Nat) :
    Quoting allowed ((codec.parse text width).mapError .codec) := by
  cases parsed : codec.parse text width with
  | ok bytes => trivial
  | error error =>
      refine ⟨trivial, fun quoted shown => ?_⟩
      rwa [quotes.reading parsed quoted shown]

theorem render_quotes {codec : Codec} (quotes : codec.QuotesInput) (factor : Nat) (bytes : Bytes) :
    Quoting allowed (Descriptor.renderWith codec factor bytes) := by
  rw [Descriptor.renderWith]
  cases rendered : codec.render bytes (Descriptor.textRoom bytes.length factor) with
  | ok text => trivial
  | error error =>
      refine ⟨trivial, fun quoted shown => ?_⟩
      have none : error.texts = [] := Codec.render_texts quotes rendered
      change quoted ∈ error.texts at shown
      rw [none] at shown
      cases shown

variable {table : Table} (quotes : table.QuotesInput allowed)
include quotes

theorem refuse_quotes (refusal : Refusal) : (table.refuse refusal : Attempt α).Quotes allowed := by
  refine Attempt.ends_throw ⟨trivial, ?_⟩
  rintro _ (_ | ⟨_, ⟨⟩⟩)
  exact quotes.name

theorem keyText_quotes (key : Bytes) : Quoting allowed (table.map.keyText table.factor key) :=
  (table.map.checkKey_quotes key).bind fun _ => render_quotes quotes.keyCodec _ _

theorem single_quotes (value : Bytes) :
    Quoting allowed (table.map.valueText table.factor value) := by
  rw [Descriptor.valueText]
  split
  · exact quotes_of_plain trivial rfl
  · exact render_quotes quotes.valueCodec _ _

theorem shares_quotes (value : Bytes) : Quoting allowed (table.shareTexts value) := by
  refine Quoting.mapM fun share _ => ?_
  rw [shareText]
  split
  · exact quotes_of_plain trivial rfl
  · exact single_quotes quotes share

theorem valueText_quotes (value : Bytes) : Quoting allowed (table.valueText value) := by
  rw [valueText]
  split
  · exact single_quotes quotes value
  · exact (shares_quotes quotes value).bind fun _ => trivial

theorem lookup_quotes {key : String} (given : allowed key) : (table.lookup key).Quotes allowed := by
  refine (parse_quotes quotes.keyCodec given _).attempt.bind fun key _ => ?_
  refine (table.map.lookup_quotes key).bind fun found _ => ?_
  cases found with
  | none => exact Attempt.ends_throw (quotes_of_plain trivial rfl)
  | some value => exact Attempt.ends_pure trivial

theorem get_quotes {key : String} (given : allowed key) : (table.get key).Quotes allowed := by
  rw [get]
  split
  · exact refuse_quotes quotes _
  · exact (lookup_quotes quotes given).bind fun value _ => (single_quotes quotes value).attempt

theorem getPerCpu_quotes {key : String} (given : allowed key) :
    (table.getPerCpu key).Quotes allowed := by
  rw [getPerCpu]
  split
  · exact refuse_quotes quotes _
  · exact (lookup_quotes quotes given).bind fun value _ => (shares_quotes quotes value).attempt

theorem update_quotes {key value : String} (givenKey : allowed key) (givenValue : allowed value) :
    (table.update key value).Quotes allowed := by
  rw [update]
  split
  · exact refuse_quotes quotes _
  · refine (parse_quotes quotes.keyCodec givenKey _).attempt.bind fun key _ => ?_
    refine (parse_quotes quotes.valueCodec givenValue _).attempt.bind fun value _ => ?_
    exact table.map.update_quotes key value 0

theorem remove_quotes {key : String} (given : allowed key) : (table.remove key).Quotes allowed :=
  (parse_quotes quotes.keyCodec given _).attempt.bind fun key _ => table.map.delete_quotes key

theorem dump_quotes (budget : Nat) : (table.dump budget).Quotes allowed := by
  have collected : (table.dumpBytes budget).Quotes allowed := by
    refine collectKeys_quotes (fun key => ?_) budget
    refine (table.map.lookup_quotes key).bind fun found _ => ?_
    cases found <;> exact Attempt.ends_pure trivial
  refine collected.bind fun dumped _ => ?_
  cases dumped with
  | none => exact Attempt.ends_pure trivial
  | some entries =>
      have texts (entry : Bytes × Bytes) : Quoting allowed (table.entryTexts entry) :=
        (keyText_quotes quotes entry.1).bind fun _ =>
          (valueText_quotes quotes entry.2).bind fun _ => trivial
      exact (Quoting.mapM fun entry _ => texts entry).attempt.bind fun _ _ =>
        Attempt.ends_pure trivial

theorem clear_quotes (budget : Nat) : (table.clear budget).Quotes allowed := by
  have byKey : (clearKeys table.map budget).Quotes allowed := clearKeys_quotes table.map budget
  have byIndex : Attempt.Quotes allowed (do clearIndices table.map; return some ()) :=
    (clearFrom_quotes table.map 0 _).bind fun _ _ => Attempt.ends_pure trivial
  have refused (refusal : Refusal) :
      (table.refuse refusal : Attempt (Option Unit)).Quotes allowed := refuse_quotes quotes refusal
  rw [clear]
  split <;> simp only [byKey, byIndex, refused]

theorem updatePerCpu_quotes {key : String} {values : List String} (givenKey : allowed key)
    (givenValues : ∀ value ∈ values, allowed value) :
    (table.updatePerCpu key values).Quotes allowed := by
  rw [updatePerCpu, Attempt.mapM_liftM]
  split
  · exact refuse_quotes quotes _
  · by_cases count : values.length = table.map.cpus
    · simp only [count, ne_eq, not_true_eq_false, if_false]
      have read : Quoting allowed ((table.reached values).mapM table.shareOfText) := by
        refine Quoting.mapM fun value reached => ?_
        rw [shareOfText]
        split
        · exact quotes_of_plain trivial rfl
        · exact parse_quotes quotes.valueCodec (givenValues value (List.mem_of_mem_take reached)) _
      refine read.attempt.bind fun shares _ => ?_
      refine (parse_quotes quotes.keyCodec givenKey _).attempt.bind fun key _ => ?_
      exact table.map.update_quotes key _ 0
    · simp only [count, ne_eq, not_false_eq_true, if_true]
      exact Attempt.ends_throw (quotes_of_plain trivial rfl)

end Table

/-! Opening, draining and closing the rings of an event array. -/

namespace Descriptor

theorem checkEvents_quotes {map : Descriptor} (named : allowed map.name) :
    Quoting allowed map.checkEvents := by
  have sized (side : Side) (expected actual : Nat) :
      Quoting allowed (map.checkSize side expected actual) := by
    rw [checkSize]
    split
    · trivial
    · exact ⟨trivial, List.forall_mem_singleton.2 named⟩
  have placed : Quoting allowed (map.checkFamily .perfEventArray) := by
    rw [checkFamily]
    split
    · trivial
    · exact ⟨trivial, List.forall_mem_singleton.2 named⟩
  exact placed.bind fun _ => (sized ..).bind fun _ => sized ..

theorem eraseEvent_refused {map : Descriptor} (keySize : map.keySize = 4) (cpu : Cpu) :
    (map.eraseEvent cpu).Ends (fun _ => True) fun error =>
      ∃ errno, error = .call .deletingValue (.system errno) := by
  have checked : map.checkKey (wordBytes 4 cpu.toNat) = .ok () :=
    checkKey_eq_ok.2 ((wordBytes_length ..).trans keySize.symm)
  have deleted : (map.delete (wordBytes 4 cpu.toNat)).Ends (fun _ => True) fun error =>
      error = .keyNotFound ∨ ∃ errno, error = .call .deletingValue (.system errno) := by
    rw [delete, checked]
    refine Attempt.ends_perform_bind fun reply => ?_
    cases reply with
    | ok _ => exact Attempt.ends_pure trivial
    | error errno =>
        dsimp only
        split
        · exact Attempt.ends_throw (.inl rfl)
        · exact Attempt.ends_throw (.inr ⟨errno, rfl⟩)
  refine deleted.tryCatch ?_
  rintro _ (rfl | ⟨errno, rfl⟩)
  · exact Attempt.ends_pure trivial
  · exact Attempt.ends_throw ⟨errno, rfl⟩

end Descriptor

namespace PerfBuffer

variable {ρ β : Type}

theorem ofMap_quotes {map : Descriptor} (named : allowed map.name) (host : PerfHost ρ β) :
    Quoting allowed (ofMap map host) := by
  rw [ofMap]
  exact (Descriptor.checkEvents_quotes named).bind fun _ => trivial

section

variable [Backend β]

theorem openOne_quotes {buffer : PerfBuffer ρ β} (named : allowed buffer.map.name)
    (request : RingRequest) : Quoting allowed (buffer.openOne request).1 := by
  rw [openOne]
  split
  · exact ⟨trivial, List.forall_mem_singleton.2 named⟩
  · next watched _ =>
      rcases buffer.host.openRing request with ⟨errno | ring, host⟩
      · exact quotes_of_plain trivial rfl
      · dsimp only
        split
        · exact quotes_of_plain trivial rfl
        · let started : PerfBuffer ρ β :=
            { buffer with host, watched := some (watched ++ [⟨ring.fd, request.cpu⟩]) }
          have stored : Quoting allowed
              (started.onMap (started.map.storeEvent request.cpu ring.fd)).1 :=
            (started.map.update_quotes _ _ 0).run started.host.backend
          rcases outcome : started.onMap (started.map.storeEvent request.cpu ring.fd) with
            ⟨error | _, after⟩
          · rw [outcome] at stored
            exact stored
          · trivial

theorem openEach_quotes {buffer : PerfBuffer ρ β} (named : allowed buffer.map.name)
    (options : PerfOptions) (cpus : List Cpu) :
    Quoting allowed (buffer.openEach options cpus).1 := by
  induction cpus generalizing buffer with
  | nil => trivial
  | cons cpu rest ih =>
      have first := openOne_quotes named ⟨cpu, options.pages, options.wakeup⟩
      have kept := sameMap_frame.openOne buffer ⟨cpu, options.pages, options.wakeup⟩
      rw [openEach]
      rcases opened : buffer.openOne ⟨cpu, options.pages, options.wakeup⟩ with ⟨error | _, after⟩
      · rw [opened] at first
        exact first
      · rw [opened] at kept
        exact ih (kept.symm ▸ named)

theorem openAll_quotes {buffer : PerfBuffer ρ β} (named : allowed buffer.map.name)
    {online : Except Errno Bytes} (listed : Quoting allowed (CpuList.ofFile online))
    (receiver : Nat) (options : PerfOptions) :
    Quoting allowed (buffer.openAll online receiver options).1 := by
  have valid : Quoting allowed options.validate := by
    rw [PerfOptions.validate]
    split
    · trivial
    · exact quotes_of_plain trivial rfl
  rw [openAll]
  split
  · next refused => exact valid.of_error refused
  · next refused => exact listed.of_error refused
  · next cpus accepted _ =>
      rw [openOn, accepted]
      dsimp only
      split
      · exact ⟨trivial, List.forall_mem_singleton.2 named⟩
      · let started : PerfBuffer ρ β :=
          { buffer with watched := some [], receiver := some receiver }
        have same : allowed started.map.name := named
        have each := openEach_quotes same options cpus
        rcases opened : started.openEach options cpus with ⟨error | _, after⟩
        · rw [opened] at each
          exact each
        · trivial

theorem closeOne_reports {buffer : PerfBuffer ρ β} (keySize : buffer.map.keySize = 4)
    (reader : PerfReader) :
    ∃ removals : List RefusedRemoval,
      (buffer.closeOne reader).1 = removals.map RefusedRemoval.text := by
  have same := sameMap_frame.unwatch buffer reader.reported
  rw [closeOne]
  rcases unwatched : buffer.unwatch reader.reported with ⟨watching, after⟩
  rw [unwatched] at same
  have refused := (Descriptor.eraseEvent_refused (same.symm ▸ keySize) reader.cpu).run
    after.host.backend
  change Attempt.Outcome _ _ (after.onMap (after.map.eraseEvent reader.cpu)).1 at refused
  dsimp only
  rcases erased : after.onMap (after.map.eraseEvent reader.cpu) with ⟨error | _, last⟩
  · rw [erased] at refused
    obtain ⟨errno, rfl⟩ := refused
    cases watching with
    | ok _ => exact ⟨[.event reader.cpu errno], rfl⟩
    | error fault => exact ⟨[.watch reader.cpu fault, .event reader.cpu errno], rfl⟩
  · cases watching with
    | ok _ => exact ⟨[], rfl⟩
    | error fault => exact ⟨[.watch reader.cpu fault], rfl⟩

theorem closeEach_reports {buffer : PerfBuffer ρ β} (keySize : buffer.map.keySize = 4)
    (readers : List PerfReader) :
    ∃ removals : List RefusedRemoval,
      (buffer.closeEach readers).1 = removals.map RefusedRemoval.text := by
  induction readers generalizing buffer with
  | nil => exact ⟨[], rfl⟩
  | cons reader rest ih =>
      obtain ⟨first, reported⟩ := closeOne_reports keySize reader
      have kept := sameMap_frame.closeOne buffer reader
      obtain ⟨more, others⟩ := ih (kept.symm ▸ keySize)
      refine ⟨first ++ more, ?_⟩
      rw [List.map_append, ← reported, ← others]
      rfl

theorem close_quotes {buffer : PerfBuffer ρ β} (keySize : buffer.map.keySize = 4) :
    Quoting allowed buffer.close.1 := by
  let closing : PerfBuffer ρ β := { buffer with readers := [] }
  have same : closing.map.keySize = 4 := keySize
  obtain ⟨removals, reported⟩ := closeEach_reports same buffer.readers
  change Quoting allowed (closingResult (closing.closeEach buffer.readers).1)
  rw [reported]
  cases removals with
  | nil => trivial
  | cons removal more => exact quotes_of_plain ⟨removal :: more, rfl⟩ rfl

end

variable [RingContent ρ]

theorem drainCpu_quotes (buffer : PerfBuffer ρ β) (cpu : Cpu) :
    Quoting allowed (buffer.drainCpu cpu).1 := by
  rw [drainCpu]
  split
  · split
    · trivial
    · dsimp only
      split
      · exact quotes_of_plain trivial rfl
      · trivial
  · trivial

theorem drainEach_quotes (buffer : PerfBuffer ρ β) (cpus : List Cpu) :
    Quoting allowed (buffer.drainEach cpus).1 := by
  induction cpus generalizing buffer with
  | nil => trivial
  | cons cpu rest ih =>
      have first : Quoting allowed (buffer.drainCpu cpu).1 := buffer.drainCpu_quotes cpu
      rw [drainEach]
      rcases drained : buffer.drainCpu cpu with ⟨error | count, after⟩
      · rw [drained] at first
        exact first
      · have others := ih after
        dsimp only
        rcases more : after.drainEach rest with ⟨error | count, last⟩
        · rw [more] at others
          exact others
        · trivial

end PerfBuffer

end

end KernelMaps
