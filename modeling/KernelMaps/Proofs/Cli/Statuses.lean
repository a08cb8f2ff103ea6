import KernelMaps.Proofs.Cli.Quotations
import KernelMaps.Proofs.Cpu.Ranges

/-!
What the status of a run depends on. A failure has the status of what it is due to, unless one of
the texts that it shows tells of a cause. These texts are those of the command, the name of the map
and the list of CPUs, so that a run ends as its failure asks for as long as none of them tells of
one.
-/

namespace KernelMaps.Cli

/-! The texts that a run is given. -/

def Command.texts : Command → List String
  | get map key | delete map key => [map.path, key]
  | update map key values => map.path :: key :: values
  | command => [command.path]

namespace Machine

def mapNames (machine : Machine) (path : String) : List String :=
  (machine.maps.filter fun map => map.pin.path = path).map fun map => map.pin.facts.nameText

def onlineText (machine : Machine) : List String :=
  match machine.online.map Text.decodeUtf8? with
  | .ok (some text) => [String.ofList text]
  | _ => []

end Machine

def givenTexts (command : Command) (machine : Machine) : List String :=
  command.texts ++ machine.mapNames command.path ++ machine.onlineText

/-- Whether a text tells of no cause that none of some given texts tells of. -/
def Harmless (given : List String) (text : String) : Prop :=
  ∀ cause, Tells cause text → ∃ other ∈ given, Tells cause other

section

variable {given : List String} {text : String}

theorem harmless_of_mem (member : text ∈ given) : Harmless given text :=
  fun _ tells => ⟨text, member, tells⟩

theorem harmless_of_silent (silent : ∀ cause, ¬Tells cause text) : Harmless given text :=
  fun cause tells => absurd tells (silent cause)

theorem harmless_of_part {whole : String} (member : whole ∈ given)
    (part : text.toList <:+: whole.toList) : Harmless given text := by
  rintro cause ⟨phrase, listed, held⟩
  exact ⟨whole, member, phrase, listed, held.trans (part.map _)⟩

theorem not_tells_of_solid {cause : Cause} {letters : List Char} (solid : Text.Solid letters) :
    ¬Tells cause (String.ofList letters) := by
  refine not_tells_word fun blank => ?_
  rw [String.toList_ofList] at blank
  exact absurd (solid ' ' blank) (by decide)

end

/-! What a step of a run comes to, on a machine. -/

namespace Step

variable {α β : Type} {machine : Machine} {good : α → Machine → Prop} {bad : Failure → Prop}

/-- Whether all that a step can come to on a machine is a result with one property, there or on the
machine that it leaves, or a failure with another. -/
def Ends (step : Step α) (machine : Machine) (good : α → Machine → Prop) (bad : Failure → Prop) :
    Prop :=
  ∀ printed, match step.run.run (machine, printed) with
    | (.ok result, after) => good result after.1
    | (.error failure, _) => bad failure

theorem ends_pure {result : α} (holds : good result machine) :
    (pure result : Step α).Ends machine good bad := fun _ => holds

theorem ends_throw {failure : Failure} (holds : bad failure) :
    (throw failure : Step α).Ends machine good bad := fun _ => holds

theorem ends_machine_bind {next : Machine → Step α} (rest : (next machine).Ends machine good bad) :
    (Step.machine >>= next).Ends machine good bad := rest

theorem ends_modify_bind {change : Machine × Printed → Machine × Printed} {next : Unit → Step α}
    (rest : ∀ after, (next ()).Ends after good bad) :
    (modify change >>= next).Ends machine good bad := fun _ => rest _ _

theorem ends_print (text : String) : (print text).Ends machine (fun _ _ => True) bad :=
  fun _ => trivial

theorem ends_mapError {ε : Type} {outcome : Except ε α} {wrap : ε → Failure}
    (results : ∀ result, outcome = .ok result → good result machine)
    (failures : ∀ error, outcome = .error error → bad (wrap error)) :
    (liftM (outcome.mapError wrap) : Step α).Ends machine good bad := by
  cases outcome with
  | ok result => exact fun _ => results result rfl
  | error error => exact fun _ => failures error rfl

theorem Ends.bind {step : Step α} {next : α → Step β} {last : β → Machine → Prop}
    (first : step.Ends machine good bad)
    (rest : ∀ result after, good result after → (next result).Ends after last bad) :
    (step >>= next).Ends machine last bad := by
  intro printed
  have begun := first printed
  rw [ExceptT.run_bind, StateT.run_bind]
  rcases ran : step.run.run (machine, printed) with ⟨failure | result, after, shown⟩
  · rw [ran] at begun
    exact begun
  · rw [ran] at begun
    exact rest result after begun shown

end Step

/-! Failures show what is given, and nothing else that tells of a cause. -/

def Failure.Quotes (allowed : String → Prop) (failure : Failure) : Prop :=
  failure.Reports ∧ ∀ text ∈ failure.texts, allowed text

theorem Failure.quotes_map {allowed : String → Prop} (error : MapError)
    (quotes : error.Quotes allowed) : (map error).Quotes allowed := quotes

theorem Failure.quotes_dumping {allowed : String → Prop} (error : MapError)
    (quotes : error.Quotes allowed) : (dumping error).Quotes allowed := quotes

section

variable {given : List String}

theorem fileName_infix (path : List Char) : (Text.fileName? path).getD [] <:+: path := by
  cases found : Text.fileName? path with
  | none => exact List.nil_infix
  | some name =>
      rw [Text.fileName?, Option.filter_eq_some_iff] at found
      have member := List.mem_of_getLast? found.1
      exact Text.infix_of_mem_splitAll (List.mem_of_mem_filter member)

theorem describe_quotes {pin : Pin} (listed : pin.path ∈ given)
    (named : pin.facts.nameText ∈ given) (fd : Int) (cpus : UInt16) :
    Attempt.Outcome (fun map => Harmless given map.name) (MapError.Quotes (Harmless given))
      (pin.describe fd cpus) := by
  simp only [Pin.describe, Pin.facts?]
  cases pin.querying with
  | some errno => exact MapError.quotes_of_plain trivial rfl
  | none =>
      simp only [Except.mapError, bind, Except.bind]
      split
      · exact MapError.quotes_of_plain trivial rfl
      · next kind _ =>
          by_cases unnamed : pin.facts.nameText.isEmpty = true
          · simp only [unnamed, if_true]
            refine harmless_of_part listed ?_
            rw [String.toList_ofList]
            exact fileName_infix _
          · simp only [unnamed]
            exact harmless_of_mem named

theorem ofFile_quotes {machine : Machine} (listed : ∀ text ∈ machine.onlineText, text ∈ given) :
    Quoting (Harmless given) (CpuList.ofFile machine.online) := by
  rw [Machine.onlineText] at listed
  cases online : machine.online with
  | error errno => exact MapError.quotes_of_plain trivial rfl
  | ok bytes =>
      rw [CpuList.ofFile]
      cases decoded : Text.decodeUtf8? bytes with
      | none =>
          refine ⟨trivial, List.forall_mem_singleton.2 (harmless_of_silent fun cause => ?_)⟩
          cases cause <;> exact not_tells_letters (by decide)
      | some text =>
          simp only [online, Except.map, decoded, List.mem_singleton, forall_eq] at listed
          dsimp only
          cases parsed : CpuList.parse (String.ofList text) with
          | ok cpus => trivial
          | error error =>
              obtain ⟨good, piece, rest, cut, -, -, rfl⟩ := CpuList.readPieces_eq_error_iff.1 parsed
              have member : piece ∈ CpuList.pieces (String.ofList text) :=
                cut ▸ List.mem_append_right good List.mem_cons_self
              refine ⟨trivial, List.forall_mem_singleton.2 fun cause tells => ?_⟩
              have quoted : Tells cause (String.ofList piece) := by
                revert tells
                dsimp only [toString]
                cases cause <;> simp (disch := (rw [String.toList_ofList]; decide))
              refine harmless_of_part listed ?_ cause quoted
              rw [String.toList_ofList]
              exact (Text.infix_of_mem_splitAll (List.mem_of_mem_filter member)).trans
                (Text.trim_infix _)

theorem openMap_quotes {pins : List Pin} {path : String} (listed : path ∈ given)
    (named : ∀ pin ∈ pins, pin.path = path → pin.facts.nameText ∈ given) (fd : Int) (cpus : UInt16) :
    Attempt.Outcome (fun map => Harmless given map.name) (MapError.Quotes (Harmless given))
      (Pin.openMap pins path fd cpus) := by
  simp only [Pin.openMap, Pin.find]
  split
  · refine ⟨trivial, List.forall_mem_singleton.2 (harmless_of_silent fun cause => ?_)⟩
    cases cause <;> exact not_tells_letters (by decide)
  · cases found : pins.find? fun pin => pin.path = path with
    | none => exact MapError.quotes_of_plain trivial rfl
    | some pin =>
        dsimp only
        cases pin.opening with
        | some errno => exact MapError.quotes_of_plain trivial rfl
        | none =>
            have placed : pin.path = path := by simpa using List.find?_some found
            have member := List.mem_of_find?_eq_some found
            exact describe_quotes (placed ▸ listed) (named pin member placed) fd cpus

end

structure Lists (given : List String) (machine : Machine) (path : String) : Prop where
  pin : path ∈ given
  names : ∀ name ∈ machine.mapNames path, name ∈ given
  online : ∀ text ∈ machine.onlineText, text ∈ given

section

variable {given : List String} {machine : Machine} {path : String} {α : Type}

theorem solid_releaseOf (version : String) : Text.Solid (releaseOf version) := by
  rw [releaseOf]
  cases found : (Text.words version.toList)[2]? with
  | none =>
      have unknown : "unknown".toList = ['u', 'n', 'k', 'n', 'o', 'w', 'n'] := String.toList_ofList
      rw [Option.getD_none, unknown]
      simp [Text.Solid, Text.isBlank, Text.blankRanges]
  | some word => exact Text.solid_of_mem_words (List.mem_of_getElem? found)

theorem checkKernel_quotes {version : String} {fault : PreflightFault}
    (failed : checkKernel version = .error fault) : ∀ text ∈ fault.texts, Harmless given text := by
  rw [checkKernel] at failed
  dsimp only at failed
  split at failed
  · cases failed
  · split at failed
    · obtain rfl := Except.error.inj failed
      exact List.forall_mem_singleton.2 (harmless_of_silent fun cause =>
        not_tells_of_solid (solid_releaseOf version))
    · cases failed

theorem checkPath_quotes (listed : path ∈ given) {node : Option Text.Node} {fault : PreflightFault}
    (failed : checkPath path node = .error fault) : ∀ text ∈ fault.texts, Harmless given text := by
  unfold checkPath at failed
  split at failed
  · obtain rfl := Except.error.inj failed
    exact List.forall_mem_singleton.2 (harmless_of_mem listed)
  · obtain rfl := Except.error.inj failed
    exact List.forall_mem_singleton.2 (harmless_of_mem listed)
  · split at failed <;> cases failed

theorem preflight_quotes (listed : path ∈ given) {fault : PreflightFault}
    (failed : (do
      checkUser machine.user
      checkKernel machine.version
      checkPath path (machine.node? path) : Except PreflightFault (List LogLine)) = .error fault) :
    ∀ text ∈ fault.texts, Harmless given text := by
  rw [checkUser] at failed
  split at failed
  · cases kernel : checkKernel machine.version with
    | error other =>
        rw [kernel] at failed
        obtain rfl : other = fault := Except.error.inj failed
        exact checkKernel_quotes kernel
    | ok _ =>
        rw [kernel] at failed
        exact checkPath_quotes listed failed
  · obtain rfl : PreflightFault.notPrivileged = fault := Except.error.inj failed
    exact List.forall_mem_nil _

theorem openPath_ends (lists : Lists given machine path) :
    (openPath path).Ends machine (fun map after => Harmless given map.name ∧ machine = after)
      (Failure.Quotes (Harmless given)) := by
  refine Step.ends_machine_bind ?_
  have checked : (liftM ((do
      checkUser machine.user
      checkKernel machine.version
      checkPath path (machine.node? path) : Except PreflightFault (List LogLine)).mapError
        Failure.preflight) : Step (List LogLine)).Ends machine (fun _ after => machine = after)
      (Failure.Quotes (Harmless given)) :=
    Step.ends_mapError (fun _ _ => rfl) fun fault failed =>
      ⟨trivial, preflight_quotes lists.pin failed⟩
  refine checked.bind ?_
  rintro _ _ rfl
  have named : ∀ pin ∈ machine.maps.map PinnedMap.pin, pin.path = path →
      pin.facts.nameText ∈ given := by
    intro pin member placed
    obtain ⟨map, listed, rfl⟩ := List.mem_map.1 member
    refine lists.names _ (List.mem_map.2 ⟨map, List.mem_filter.2 ⟨listed, ?_⟩, rfl⟩)
    simpa using placed
  have opened := openMap_quotes lists.pin named mapFd machine.possibleCpus
  refine Step.ends_mapError (fun map found => ?_) fun error failed => ?_
  · rw [found] at opened
    exact ⟨opened, rfl⟩
  · obtain ⟨reports, shown⟩ := opened.of_error failed
    exact ⟨reports, List.forall_mem_cons.2 ⟨harmless_of_mem lists.pin, shown⟩⟩

theorem codec_quotesInput (format : Format) : format.codec.QuotesInput := by
  cases format with
  | hex => exact Codec.hex_quotesInput
  | uint => exact Codec.integer_quotesInput false
  | int => exact Codec.integer_quotesInput true

theorem openTable_ends {arguments : MapArguments} (lists : Lists given machine arguments.path) :
    (openTable arguments).Ends machine
      (fun table _ => table.QuotesInput (Harmless given)) (Failure.Quotes (Harmless given)) := by
  refine (openPath_ends lists).bind ?_
  rintro map _ ⟨named, -⟩
  exact Step.ends_pure ⟨named, codec_quotesInput _, codec_quotesInput _⟩

theorem onBackend_ends {wrap : MapError → Failure}
    {run : Simulation → Except MapError α × Simulation}
    (wraps : ∀ error, MapError.Quotes (Harmless given) error →
      (wrap error).Quotes (Harmless given))
    (quotes : ∀ backend, Quoting (Harmless given) (run backend).1) (machine : Machine) :
    (onBackend path wrap run).Ends machine (fun _ _ => True) (Failure.Quotes (Harmless given)) := by
  refine Step.ends_machine_bind ?_
  split
  · exact Step.ends_throw (wraps _ (MapError.quotes_of_plain trivial rfl))
  · next backend _ =>
      have ran := quotes backend
      rcases ended : run backend with ⟨outcome, after⟩
      rw [ended] at ran
      refine Step.ends_modify_bind fun _ => ?_
      exact Step.ends_mapError (fun _ _ => trivial) fun error failed =>
        wraps error (ran.of_error failed)

theorem runWalk_quotes [Inhabited α] {walk : Nat → Attempt (Option α)}
    (quotes : ∀ budget, (walk budget).Quotes (Harmless given)) (backend : Simulation) :
    Quoting (Harmless given) (backend.runWalk walk).1 :=
  ((quotes backend.store.walkBudget).run backend).map _

theorem watchSession_quotes {map : Descriptor} (named : Harmless given map.name)
    (listed : ∀ text ∈ machine.onlineText, text ∈ given) (arguments : WatchArguments)
    (backend : Simulation) :
    Quoting (Harmless given) (watchSession machine map arguments backend).1 := by
  rw [watchSession]
  dsimp only
  split
  · next refused => exact (PerfBuffer.ofMap_quotes named _).of_error refused
  · next buffer made =>
      obtain ⟨checked, same⟩ := PerfBuffer.ofMap_eq_ok.1 made
      have placed : buffer.map = map := same ▸ rfl
      have opens : Quoting (Harmless given)
          (buffer.openAll machine.online 0 ⟨arguments.pages, arguments.wakeup⟩).1 :=
        PerfBuffer.openAll_quotes (placed.symm ▸ named) (ofFile_quotes listed) 0 _
      have first := PerfBuffer.sameMap_frame.openAll buffer machine.online 0
        ⟨arguments.pages, arguments.wakeup⟩
      split
      · next refused =>
          rw [refused] at opens
          exact opens
      · next opened found =>
          rw [found] at first
          have drains : Quoting (Harmless given) opened.consume.1 :=
            PerfBuffer.drainEach_quotes opened opened.cpus
          have second : opened.consume.2.holdings = opened.holdings :=
            PerfBuffer.drainEach_holdings opened opened.cpus
          split
          · next refused =>
              rw [refused] at drains
              exact drains
          · next drained found =>
              rw [found] at second
              have kept : drained.map = opened.map := congrArg (fun holdings => holdings.map) second
              have keySize : drained.map.keySize = 4 := by
                rw [kept, first, placed]
                exact (Descriptor.checkEvents_eq_ok.1 checked).2.1
              exact (PerfBuffer.close_quotes keySize).map _

theorem watch_ends {arguments : WatchArguments} (lists : Lists given machine arguments.path) :
    (watch arguments).Ends machine (fun _ _ => True) (Failure.Quotes (Harmless given)) := by
  refine (openPath_ends lists).bind ?_
  rintro map _ ⟨named, rfl⟩
  refine Step.ends_machine_bind ?_
  split
  · exact Step.ends_throw (Failure.quotes_map _ (MapError.quotes_of_plain trivial rfl))
  · next backend _ =>
      have quotes := watchSession_quotes named lists.online arguments backend
      rcases ended : watchSession machine map arguments backend with ⟨outcome, host⟩
      rw [ended] at quotes
      refine Step.ends_modify_bind fun after => ?_
      have reports (after : Machine) : (do
          let buffer ← liftM (outcome.mapError Failure.map)
          Step.printError (line s!"{buffer.samples} samples, {buffer.lost} lost")).Ends after
          (fun _ _ => True) (Failure.Quotes (Harmless given)) := by
        refine (Step.ends_mapError (fun _ _ => trivial) fun error failed => ?_ :
          Step.Ends _ after (fun _ _ => True) _).bind fun _ _ _ _ => trivial
        exact quotes.of_error failed
      dsimp only
      split
      · exact (Step.ends_print _).bind fun _ after _ => reports after
      · exact reports after

end

theorem lists_givenTexts (command : Command) (machine : Machine) :
    Lists (givenTexts command machine) machine command.path where
  pin := by cases command <;> simp [givenTexts, Command.texts, Command.path]
  names name member := by simp [givenTexts, member]
  online text member := by simp [givenTexts, member]

theorem perform_ends (command : Command) (machine : Machine) :
    (perform command).Ends machine (fun _ _ => True)
      (Failure.Quotes (Harmless (givenTexts command machine))) := by
  have lists := lists_givenTexts command machine
  cases command with
  | info arguments json =>
      refine (openTable_ends lists).bind fun table _ _ => ?_
      exact Step.ends_print _
  | dump arguments json =>
      refine (openTable_ends lists).bind fun table after quotes => ?_
      have walked := runWalk_quotes (Table.dump_quotes quotes)
      refine (onBackend_ends Failure.quotes_dumping walked after).bind ?_
      exact fun _ _ _ => Step.ends_print _
  | get arguments key =>
      have given : Harmless (givenTexts (.get arguments key) machine) key :=
        harmless_of_mem (by simp [givenTexts, Command.texts])
      refine (openTable_ends lists).bind fun table after quotes => ?_
      split
      · have read := Table.getPerCpu_quotes quotes given
        refine (onBackend_ends Failure.quotes_map read.run after).bind ?_
        exact fun _ _ _ => Step.ends_print _
      · have read := Table.get_quotes quotes given
        refine (onBackend_ends Failure.quotes_map read.run after).bind ?_
        exact fun _ _ _ => Step.ends_print _
  | update arguments key values =>
      have givenKey : Harmless (givenTexts (.update arguments key values) machine) key :=
        harmless_of_mem (by simp [givenTexts, Command.texts])
      have givenValues : ∀ value ∈ values,
          Harmless (givenTexts (.update arguments key values) machine) value :=
        fun value member => harmless_of_mem (by simp [givenTexts, Command.texts, member])
      refine (openTable_ends lists).bind fun table after quotes => ?_
      split
      · have written := Table.updatePerCpu_quotes quotes givenKey givenValues
        exact onBackend_ends Failure.quotes_map written.run after
      · split
        · next value =>
            have givenValue := givenValues value List.mem_cons_self
            have written := Table.update_quotes quotes givenKey givenValue
            exact onBackend_ends Failure.quotes_map written.run after
        · exact Step.ends_throw ⟨trivial, List.forall_mem_singleton.2 quotes.name⟩
  | delete arguments key =>
      have given : Harmless (givenTexts (.delete arguments key) machine) key :=
        harmless_of_mem (by simp [givenTexts, Command.texts])
      refine (openTable_ends lists).bind fun table after quotes => ?_
      exact onBackend_ends Failure.quotes_map (Table.remove_quotes quotes given).run after
  | clear arguments =>
      refine (openTable_ends lists).bind fun table after quotes => ?_
      exact onBackend_ends Failure.quotes_map (runWalk_quotes (Table.clear_quotes quotes)) after
  | watch arguments => exact watch_ends lists

def FailsWith (command : Command) (machine : Machine) (failure : Failure) : Prop :=
  ∃ after, (perform command).run.run (machine, {}) = (.error failure, after)

def Quiet (command : Command) (machine : Machine) : Prop :=
  ∀ text ∈ givenTexts command machine, ∀ cause, ¬Tells cause text

/-- What the status of a run is that failed. It is the one of what the failure is due to and of the
texts that it shows, which tell of no cause that no given text tells of. -/
structure FollowsCause (command : Command) (machine : Machine) (failure : Failure) : Prop where
  status : Exits (runCommand command machine).1.exit fun cause =>
    failure.DueTo cause ∨ ∃ text ∈ failure.texts, Tells cause text
  shown : ∀ cause, (∃ text ∈ failure.texts, Tells cause text) →
    ∃ text ∈ givenTexts command machine, Tells cause text
  unsteered : Quiet command machine →
    Exits (runCommand command machine).1.exit fun cause => failure.DueTo cause
  alike : Quiet command machine → ∀ {other elsewhere reason}, FailsWith other elsewhere reason →
    Quiet other elsewhere → (∀ cause, failure.DueTo cause ↔ reason.DueTo cause) →
      (runCommand command machine).1.exit = (runCommand other elsewhere).1.exit

section

variable {command : Command} {machine : Machine} {failure : Failure}

theorem FailsWith.quotes (fails : FailsWith command machine failure) :
    failure.Quotes (Harmless (givenTexts command machine)) := by
  obtain ⟨after, failed⟩ := fails
  have ended := perform_ends command machine {}
  rwa [failed] at ended

theorem FailsWith.exits (fails : FailsWith command machine failure) :
    Exits (runCommand command machine).1.exit fun cause =>
      failure.DueTo cause ∨ ∃ text ∈ failure.texts, Tells cause text := by
  obtain ⟨reports, -⟩ := fails.quotes
  obtain ⟨after, failed⟩ := fails
  rw [runCommand, failed]
  exact (exitCode_exits failure.message).congr fun cause => tells_failure reports

theorem FailsWith.shown (fails : FailsWith command machine failure) (cause : Cause)
    (tells : ∃ text ∈ failure.texts, Tells cause text) :
    ∃ text ∈ givenTexts command machine, Tells cause text := by
  obtain ⟨text, member, told⟩ := tells
  exact fails.quotes.2 text member cause told

theorem FailsWith.unsteered (fails : FailsWith command machine failure)
    (quiet : Quiet command machine) :
    Exits (runCommand command machine).1.exit fun cause => failure.DueTo cause := by
  refine fails.exits.congr fun cause => or_iff_left fun tells => ?_
  obtain ⟨text, member, told⟩ := fails.shown cause tells
  exact quiet text member cause told

theorem status_follows_cause (fails : FailsWith command machine failure) :
    FollowsCause command machine failure where
  status := fails.exits
  shown := fails.shown
  unsteered := fails.unsteered
  alike := by
    intro quiet other elsewhere reason alsoFails alsoQuiet same
    refine (fails.unsteered quiet).unique ?_
    exact (alsoFails.unsteered alsoQuiet).congr fun cause => (same cause).symm

end

def oneHash : Machine where
  version := "Linux version 6.1.0"
  node? _ := some .file
  online := .ok []
  possibleCpus := 1
  maps := [{
    pin := { path := "m", facts := {
      number := 1, keySize := 4, valueSize := 8, capacity := 3, name := [0x6D] } }
    backend := Simulation.ofStore (Store.empty .hash 3) }]

def readingKey (key : String) : Command := .get { path := "m" } key

def unreadKey (key : String) : Failure := .map (.codec (.parse key .oddDigits))

theorem odd_key_exits_usage :
    FailsWith (readingKey "0x1") oneHash (unreadKey "0x1") ∧
      (runCommand (readingKey "0x1") oneHash).1.exit = exitUsage := by
  have fails : FailsWith (readingKey "0x1") oneHash (unreadKey "0x1") := ⟨_, rfl⟩
  have words : ∀ text ∈ givenTexts (readingKey "0x1") oneHash, ' ' ∉ text.toList := by
    decide +kernel
  have follows := status_follows_cause fails
  have exits := follows.unsteered fun text member cause => not_tells_word (words text member)
  exact ⟨fails, exits.usage.2 ⟨Cause.noConfusion, rfl⟩⟩

theorem denied_key_steers_status :
    (FailsWith (readingKey "permission denied") oneHash (unreadKey "permission denied") ∧
      (runCommand (readingKey "permission denied") oneHash).1.exit = exitNoPermission) ∧
    FailsWith (readingKey "0x1") oneHash (unreadKey "0x1") ∧
      (runCommand (readingKey "0x1") oneHash).1.exit = exitUsage := by
  refine ⟨⟨⟨_, rfl⟩, ?_⟩, ⟨_, rfl⟩, ?_⟩ <;> decide +kernel

end KernelMaps.Cli
