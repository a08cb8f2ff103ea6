import KernelMaps.Proofs.Cli.Wording

/-!
What the messages of failures tell. A failure is due to a cause or to none, whatever its message
shows, and of texts from outside its message shows some. The status of a run follows the cause as
long as none of these texts tells of one.
-/

namespace KernelMaps

open Cli (Cause Tells)

def Errno.denies (errno : Errno) : Bool :=
  errno = .notPermitted || errno = .accessDenied

namespace ParseReason

def texts : ParseReason → List String
  | stated text => [text]
  | _ => []

end ParseReason

namespace CodecError

def DueTo (cause : Cause) : CodecError → Prop
  | parse .. | width .. => cause = .usage
  | overflow _ | invalidUtf8 | outOfBounds => False

def texts : CodecError → List String
  | parse text reason => text :: reason.texts
  | _ => []

end CodecError

namespace IoError

def DueTo (cause : Cause) (error : IoError) : Prop :=
  cause = .permission ∧ ∃ errno ∈ error.errno?, errno.denies = true

def texts : IoError → List String
  | system _ => []
  | invalidData text | invalidInput text => [text]

end IoError

inductive RefusedRemoval where
  | watch (cpu : Cpu) (errno : Errno)
  | event (cpu : Cpu) (errno : Errno)

namespace RefusedRemoval

def errno : RefusedRemoval → Errno
  | watch _ errno | event _ errno => errno

def text : RefusedRemoval → String
  | watch cpu errno => s!"{cpu.label}: epoll removal: {errno.message}"
  | event cpu errno => s!"{cpu.label}: {(MapError.call .deletingValue (.system errno)).message}"

def report (removals : List RefusedRemoval) : String :=
  "; ".intercalate (removals.map text)

end RefusedRemoval

namespace MapError

def DueTo (cause : Cause) : MapError → Prop
  | call _ source | cpuTopology source | io source => source.DueTo cause
  | codec source => source.DueTo cause
  | openOnCpu _ _ source => source.DueTo cause
  | closeFailed _ details => cause = .permission ∧ ∃ removals,
      details = RefusedRemoval.report removals ∧ ∃ removal ∈ removals, removal.errno.denies = true
  | _ => False

def texts : MapError → List String
  | unexpectedKind table .. | misalignedValue table _ | sizeMismatch table .. | unsupported table _
  | alreadyOpen table => [table]
  | call _ source | cpuTopology source | io source => source.texts
  | codec source => source.texts
  | openOnCpu _ _ source => source.texts
  | _ => []

/-- Whether the details of a failed close are what the system refused, and nothing else. -/
def Reports : MapError → Prop
  | closeFailed _ details => ∃ removals, details = RefusedRemoval.report removals
  | openOnCpu _ _ source => source.Reports
  | _ => True

end MapError

namespace Cli

namespace PreflightFault

def texts : PreflightFault → List String
  | notPrivileged => []
  | oldKernel _ _ release => [release]
  | noSuchPin path | pinIsDirectory path => [path]

end PreflightFault

namespace Failure

def DueTo (cause : Cause) : Failure → Prop
  | preflight fault => cause = .permission ∧ fault = .notPrivileged
  | opening _ error | dumping error | map error => error.DueTo cause
  | oneValueOnly _ => False

def texts : Failure → List String
  | preflight fault => fault.texts
  | opening path error => path :: error.texts
  | dumping error | map error => error.texts
  | oneValueOnly name => [name]

def Reports : Failure → Prop
  | opening _ error | dumping error | map error => error.Reports
  | _ => True

end Failure

/-! The words of the program tell nothing, and so do numbers. -/

variable {cause : Cause}

theorem tells_errno_text {errno : Errno} :
    Tells cause errno.text ↔ cause = .permission ∧ errno.denies = true := by
  obtain ⟨number⟩ := errno
  rw [Errno.text]
  split
  case h_20 known =>
    have other : Errno.denies ⟨number⟩ = false := by
      simp only [Errno.denies, Errno.notPermitted, Errno.accessDenied, Errno.mk.injEq,
        Bool.or_eq_false_iff, decide_eq_false_iff_not]
      tauto
    cases cause <;> simp (disch := (rw [String.toList_ofList]; decide)) [toString, other]
  all_goals
    rename_i same
    obtain rfl := same
    cases cause <;> first
      | exact iff_of_false (not_tells_letters (by decide)) (by decide)
      | exact iff_of_true (tells_letters (by decide)) (by decide)

@[simp] theorem tells_errno {errno : Errno} :
    Tells cause errno.message ↔ cause = .permission ∧ errno.denies = true := by
  rw [Errno.message, ← tells_errno_text]
  cases cause <;>
    simp (disch := (rw [String.toList_ofList]; decide)) only [toString, tells_around, tells_front,
      not_tells_number, or_false]

@[simp] theorem not_tells_kind (kind : Kind) : ¬Tells cause kind.name :=
  not_tells_word (by cases kind <;> decide)

@[simp] theorem not_tells_family (family : Family) : ¬Tells cause family.description := by
  cases cause <;> cases family <;> exact not_tells_letters (by decide)

@[simp] theorem not_tells_operation (operation : Operation) : ¬Tells cause operation.phrase := by
  cases cause <;> cases operation <;> exact not_tells_letters (by decide)

@[simp] theorem not_tells_side (side : Side) : ¬Tells cause side.name :=
  not_tells_word (by cases side <;> decide)

@[simp] theorem not_tells_resource (resource : PerCpuResource) : ¬Tells cause resource.name := by
  cases cause <;> cases resource <;> exact not_tells_letters (by decide)

@[simp] theorem not_tells_cpu (cpu : Cpu) : ¬Tells cause cpu.label := by
  rw [Cpu.label]
  cases cause <;> simp (disch := (rw [String.toList_ofList]; decide)) [toString]

@[simp] theorem not_tells_refusal (refusal : Refusal) : ¬Tells cause refusal.reason := by
  cases refusal with
  | clearingKind kind =>
      rw [Refusal.reason]
      cases cause <;>
        simp (disch := (rw [String.toList_ofList]; decide)) only [toString, tells_behind,
          tells_front, not_tells_kind, not_false_eq_true]
  | _ => cases cause <;> exact not_tells_letters (by decide)

/-! Messages. -/

@[simp] theorem not_tells_fault (fault : Text.NumeralFault) : ¬Tells .permission fault.message := by
  cases fault <;> exact not_tells_letters (by decide)

theorem tells_parseReason {reason : ParseReason} :
    Tells .permission reason.message ↔ ∃ text ∈ reason.texts, Tells .permission text := by
  cases reason <;> unfold ParseReason.message <;> dsimp only [toString, ParseReason.texts] <;>
    simp (disch := (rw [String.toList_ofList]; decide))

theorem tells_codec {error : CodecError} :
    Tells cause error.message ↔ error.DueTo cause ∨ ∃ text ∈ error.texts, Tells cause text := by
  cases cause with
  | usage =>
      have parsing : Tells .usage "cannot parse '" := tells_letters (by decide)
      have measuring : Tells .usage "codec expects " := tells_letters (by decide)
      cases error <;> unfold CodecError.message <;>
        dsimp only [toString, CodecError.DueTo, CodecError.texts]
      case parse text reason =>
        exact iff_of_true (((parsing.append _).append _).append _) (.inl rfl)
      case width expected actual =>
        exact iff_of_true (((measuring.append _).append _).append _) (.inl rfl)
      all_goals simp (disch := (rw [String.toList_ofList]; decide))
  | permission =>
      cases error <;> unfold CodecError.message <;>
        dsimp only [toString, CodecError.DueTo, CodecError.texts] <;>
        simp (disch := (rw [String.toList_ofList]; decide)) [tells_parseReason]

theorem tells_io {error : IoError} :
    Tells cause error.message ↔ error.DueTo cause ∨ ∃ text ∈ error.texts, Tells cause text := by
  cases error <;> simp [IoError.message, IoError.DueTo, IoError.texts, IoError.errno?]

theorem tells_call {operation : Operation} {source : IoError} :
    Tells cause (MapError.call operation source).message ↔ Tells cause source.message := by
  unfold MapError.message
  dsimp only [toString]
  cases cause <;> simp (disch := (rw [String.toList_ofList]; decide))

theorem tells_removal {removal : RefusedRemoval} :
    Tells cause removal.text ↔ cause = .permission ∧ removal.errno.denies = true := by
  cases removal <;> unfold RefusedRemoval.text <;> dsimp only [toString, RefusedRemoval.errno] <;>
    cases cause <;>
    simp (disch := (rw [String.toList_ofList]; decide)) [tells_call, IoError.message]

theorem tells_report {removals : List RefusedRemoval} :
    Tells cause (RefusedRemoval.report removals) ↔
      cause = .permission ∧ ∃ removal ∈ removals, removal.errno.denies = true := by
  have parts : Parts cause "; ".toList := by
    rw [String.toList_ofList]
    cases cause <;> decide
  simp only [RefusedRemoval.report, tells_intercalate parts, List.mem_map, exists_exists_and_eq_and,
    tells_removal, exists_and_left, and_left_comm]

theorem tells_error {error : MapError} (reports : error.Reports) :
    Tells cause error.message ↔ error.DueTo cause ∨ ∃ text ∈ error.texts, Tells cause text := by
  induction error with
  | closeFailed count details =>
      obtain ⟨removals, rfl⟩ := reports
      unfold MapError.message
      dsimp only [toString, MapError.DueTo, MapError.texts]
      have same : (∃ others, RefusedRemoval.report removals = RefusedRemoval.report others ∧
          ∃ removal ∈ others, removal.errno.denies = true) ↔
          ∃ removal ∈ removals, removal.errno.denies = true := by
        refine ⟨?_, fun denied => ⟨removals, rfl, denied⟩⟩
        rintro ⟨others, alike, denied⟩
        have tells : Tells .permission (RefusedRemoval.report others) :=
          tells_report.2 ⟨rfl, denied⟩
        rw [← alike] at tells
        exact (tells_report.1 tells).2
      rw [same]
      cases cause <;> simp (disch := (rw [String.toList_ofList]; decide)) [tells_report]
  | openOnCpu resource cpu source ih =>
      unfold MapError.message
      dsimp only [toString, MapError.DueTo, MapError.texts]
      rw [← ih reports]
      cases cause <;> simp (disch := (rw [String.toList_ofList]; decide))
  | _ =>
    unfold MapError.message
    dsimp only [toString, MapError.DueTo, MapError.texts]
    cases cause <;> simp (disch := (rw [String.toList_ofList]; decide)) [tells_io, tells_codec]

theorem tells_chain {error : MapError} :
    (∃ text ∈ error.chain, Tells cause text) ↔ Tells cause error.message := by
  induction error with
  | call operation source => simp [MapError.chain, tells_call]
  | openOnCpu resource cpu source ih =>
      have shown : Tells cause source.message →
          Tells cause (MapError.openOnCpu resource cpu source).message :=
        fun tells => tells.behind _
      simpa [MapError.chain, ih] using shown
  | cpuTopology source =>
      have shown : Tells cause source.message → Tells cause (MapError.cpuTopology source).message :=
        fun tells => tells.behind _
      simpa [MapError.chain] using shown
  | _ => simp [MapError.chain]

theorem tells_preflight {fault : PreflightFault} :
    Tells cause fault.message ↔ (cause = .permission ∧ fault = .notPrivileged) ∨
      ∃ text ∈ fault.texts, Tells cause text := by
  cases fault <;> unfold PreflightFault.message <;> dsimp only [toString, PreflightFault.texts]
  case notPrivileged =>
    cases cause with
    | permission => exact iff_of_true ((tells_letters (by decide)).append _) (.inl ⟨rfl, rfl⟩)
    | usage => simp (disch := (rw [String.toList_ofList]; decide +kernel))
  all_goals
    cases cause <;> simp (disch := (rw [String.toList_ofList]; decide +kernel))
      [pinRoot, ← String.append_assoc]

theorem tells_failure {failure : Failure} (reports : failure.Reports) :
    Tells cause failure.message ↔
      failure.DueTo cause ∨ ∃ text ∈ failure.texts, Tells cause text := by
  have parts : Parts cause ": ".toList := by
    rw [String.toList_ofList]
    cases cause <;> decide
  rw [Failure.message, tells_intercalate parts]
  cases failure with
  | preflight fault => simp [Failure.chain, Failure.DueTo, Failure.texts, tells_preflight]
  | opening path error =>
      have path_only : Tells cause s!"Failed to open pinned map {path}" ↔ Tells cause path := by
        dsimp only [toString]
        cases cause <;> simp (disch := (rw [String.toList_ofList]; decide))
      simp [Failure.chain, Failure.DueTo, Failure.texts, tells_chain, tells_error reports,
        path_only, or_left_comm]
  | dumping error =>
      have silent : ¬Tells cause "Failed to dump table" := by
        cases cause <;> exact not_tells_letters (by decide)
      simp [Failure.chain, Failure.DueTo, Failure.texts, tells_chain, tells_error reports, silent]
  | map error => exact tells_chain.trans (tells_error reports)
  | oneValueOnly name =>
      dsimp only [Failure.chain, Failure.DueTo, Failure.texts, toString]
      cases cause <;> simp (disch := (rw [String.toList_ofList]; decide))

end Cli

end KernelMaps
