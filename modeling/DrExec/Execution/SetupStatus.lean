import DrExec.Execution.Spawn

/-! # What a status line may hold

`parse_setup_status` and `_spawn_outcome` given any bytes. `json.loads` ends in a value, in a
`ValueError` or in a `RecursionError`, which is no `ValueError`; the parsed fields are checked with
`isinstance`, and the outcome's model is stricter than that. So a status makes an outcome exactly
when it is reportable (`cleanFailure_iff`). -/

namespace DrExec.Execution.SetupStatus

open DrExec.Core.Model DrExec.Lib DrExec.Lib.Json DrExec.Recording.Outcomes DrExec.Execution.Spawn

/-- How `json.loads(line.decode("utf-8"))` ends. A `UnicodeDecodeError` is a `ValueError`. -/
inductive Loaded
  | value (v : Json)
  | valueError
  | recursionError

/-- The value, as far as one is read. -/
def Loaded.value? : Loaded → Option Json
  | value v => some v
  | valueError | recursionError => none

/-- What the parsing of a status lets through. -/
inductive StatusError
  | recursionError
  deriving DecidableEq, Repr

/-- The failure that a nonempty status is. -/
def reported : Loaded → Except StatusError SetupFailure
  | .recursionError => .error .recursionError
  | .valueError => .ok ⟨SetupStage.exec.value, none⟩
  | .value (.obj members) =>
    .ok ⟨reportedStage (members.lookup (text "stage")), reportedErrno (members.lookup (text "errno"))⟩
  | .value _ => .ok ⟨SetupStage.exec.value, none⟩

/-- `parse_setup_status`, which catches a `ValueError`. -/
def parseStatus (jsonLoads : Bytes → Loaded) (line : Bytes) :
    Except StatusError (Option SetupFailure) :=
  if line = [] then .ok none else (reported (jsonLoads line)).map some

/-- Where nothing is let through it is the parser of the handshake. -/
theorem parseStatus_eq {jsonLoads : Bytes → Loaded} {line : Bytes}
    (h : jsonLoads line ≠ .recursionError) :
    parseStatus jsonLoads line =
      .ok (parseSetupStatus (fun line => (jsonLoads line).value?) line) := by
  unfold parseStatus parseSetupStatus
  split_ifs with hline
  · rfl
  beta_reduce
  rcases hload : jsonLoads line with v | _ | _
  · cases v <;> rfl
  · rfl
  · exact absurd hload h

/-! ### The outcome -/

/-- The outcome says that the payload is absent for `ENOENT` from the exec stage alone, and else
that it could not be started. -/
def Classified (failure : SetupFailure) (executable : Text) (outcome : ExecutionOutcome) : Prop :=
  (failure.stage = SetupStage.exec.value ∧ failure.errno.map PyInt.toInt = some enoent ∧
      outcome = .spawnAbsent executable) ∨
    ∃ errno errorMessage, outcome = .spawnFailed errno errorMessage

/-- The status is taken for a failure of the setup, and that makes an outcome. -/
def CleanFailure (jsonLoads : Bytes → Loaded) (line : Bytes) (executable : Text) : Prop :=
  ∃ failure outcome, parseStatus jsonLoads line = .ok (some failure) ∧
    spawnOutcome failure executable = some outcome ∧ Classified failure executable outcome

/-- A status that `json.loads` can follow, and whose error number is no `bool`. -/
def Reportable : Loaded → Prop
  | .value (.obj members) => ∀ b, members.lookup (text "errno") ≠ some (.bool b)
  | .value _ | .valueError => True
  | .recursionError => False

theorem spawnOutcome_classified {failure : SetupFailure} {executable : Text}
    {outcome : ExecutionOutcome} (h : spawnOutcome failure executable = some outcome) :
    Classified failure executable outcome := by
  unfold spawnOutcome at h
  split_ifs at h with hexec
  · exact .inl ⟨hexec.1, hexec.2, (Option.some.inj h).symm⟩
  · obtain ⟨errno, -, h⟩ := Option.bind_eq_some_iff.mp h
    exact .inr ⟨errno, _, (Option.some.inj h).symm⟩

/-- A failure makes an outcome exactly when its number is an integer to pydantic. -/
theorem spawnOutcome_isSome_iff (failure : SetupFailure) (executable : Text) :
    (∃ outcome, spawnOutcome failure executable = some outcome) ↔
      ∀ b, failure.errno ≠ some (.bool b) := by
  unfold spawnOutcome
  split_ifs with hexec
  · refine iff_of_true ⟨_, rfl⟩ fun b hb => ?_
    have hnumber := hexec.2
    rw [hb] at hnumber
    cases b <;> exact absurd hnumber (by decide)
  constructor
  · rintro ⟨outcome, h⟩ b hb
    obtain ⟨errno, herrno, -⟩ := Option.bind_eq_some_iff.mp h
    rw [hb] at herrno
    cases herrno
  · intro herrno
    rcases hnumber : failure.errno with _ | ⟨n | b⟩
    · exact ⟨_, rfl⟩
    · exact ⟨_, rfl⟩
    · exact absurd hnumber (herrno b)

/-- An object reports a `bool` exactly when one is under its key. -/
theorem reportedErrno_bool_iff (errno : Option Json) :
    (∀ b, reportedErrno errno ≠ some (.bool b)) ↔ ∀ b, errno ≠ some (.bool b) := by
  refine forall_congr' fun b => not_congr ?_
  rcases errno with _ | v
  · simp [reportedErrno]
  · cases v <;> simp [reportedErrno]

/-- **A nonempty status is a clean spawn failure exactly when it is reportable**: `json.loads` is
not nested too deep in it, and an object has no `bool` for its error number. -/
theorem cleanFailure_iff (jsonLoads : Bytes → Loaded) (executable : Text) {line : Bytes}
    (hline : line ≠ []) :
    CleanFailure jsonLoads line executable ↔ Reportable (jsonLoads line) := by
  have hclean : ∀ failure, reported (jsonLoads line) = .ok failure →
      (CleanFailure jsonLoads line executable ↔ ∀ b, failure.errno ≠ some (.bool b)) := by
    intro failure hfailure
    have hparse : parseStatus jsonLoads line = .ok (some failure) := by
      rw [parseStatus, if_neg hline, hfailure]
      rfl
    rw [← spawnOutcome_isSome_iff failure executable]
    constructor
    · rintro ⟨failure', outcome, hparse', houtcome, -⟩
      obtain rfl := Option.some.inj (Except.ok.inj (hparse.symm.trans hparse'))
      exact ⟨outcome, houtcome⟩
    · rintro ⟨outcome, houtcome⟩
      exact ⟨failure, outcome, hparse, houtcome, spawnOutcome_classified houtcome⟩
  have hnone : ∀ b, (none : Option PyInt) ≠ some (.bool b) := fun b h => by cases h
  rcases hload : jsonLoads line with v | _ | _
  · rw [hload] at hclean
    cases v with
    | obj members => exact (hclean _ rfl).trans (reportedErrno_bool_iff _)
    | _ => exact iff_of_true ((hclean _ rfl).mpr hnone) trivial
  · rw [hload] at hclean
    exact iff_of_true ((hclean _ rfl).mpr hnone) trivial
  · refine iff_of_false ?_ id
    rintro ⟨failure, outcome, hparse, -⟩
    rw [parseStatus, if_neg hline, hload] at hparse
    cases hparse

/-- `json.loads` of canonical text. -/
def loadsCanonical (line : Bytes) : Loaded := (loads line).elim .valueError .value

/-- A status whose error number is `true`. -/
def trueErrno : Json := .obj [(text "errno", .bool true), (text "stage", .str (text "chdir"))]

theorem loadsCanonical_trueErrno : loadsCanonical (dumps trueErrno) = .value trueErrno := by
  have hlt : text "errno" < text "stage" := by decide +kernel
  have hnormal : trueErrno.Normal := by
    refine normal_obj.mpr ⟨by simpa [KeysSorted] using hlt, ?_⟩
    simp [Json.Normal, Json.normalize]
  rw [loadsCanonical, loads_dumps hnormal (by decide +kernel)]
  rfl

theorem trueErrno_ne_nil : dumps trueErrno ≠ [] := by
  rw [trueErrno, dumps]
  exact List.cons_ne_nil _ _

theorem cleanFailure_trueErrno :
    CleanFailure loadsCanonical (dumps trueErrno) (.lit "payload") ↔
      Reportable (loadsCanonical (dumps trueErrno)) :=
  cleanFailure_iff _ _ trueErrno_ne_nil

/-- **A JSON `true` is an integer to the parser and none to the outcome**: the status raises. -/
theorem trueErrno_raises :
    dumps trueErrno ≠ [] ∧
      parseStatus loadsCanonical (dumps trueErrno) =
        .ok (some ⟨SetupStage.chdir.value, some (.bool true)⟩) ∧
      spawnOutcome ⟨SetupStage.chdir.value, some (.bool true)⟩ (.lit "payload") = none ∧
      ¬ CleanFailure loadsCanonical (dumps trueErrno) (.lit "payload") := by
  have hparse : parseStatus loadsCanonical (dumps trueErrno) =
      .ok (some ⟨SetupStage.chdir.value, some (.bool true)⟩) := by
    have hkey : (text "stage" == text "errno") = false := by decide +kernel
    rw [parseStatus, if_neg trueErrno_ne_nil, loadsCanonical_trueErrno]
    simp only [trueErrno, reported, List.lookup_cons, hkey, beq_self_eq_true, reportedErrno,
      reportedStage]
    rfl
  have houtcome : spawnOutcome ⟨SetupStage.chdir.value, some (.bool true)⟩ (.lit "payload") =
      none := by
    refine (if_neg fun h => ?_).trans rfl
    exact absurd h.2 (by decide)
  refine ⟨trueErrno_ne_nil, hparse, houtcome, ?_⟩
  rintro ⟨failure, outcome, hparse', houtcome', -⟩
  obtain rfl := Option.some.inj (Except.ok.inj (hparse.symm.trans hparse'))
  rw [houtcome] at houtcome'
  cases houtcome'

end DrExec.Execution.SetupStatus
