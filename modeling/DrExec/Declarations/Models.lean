import DrExec.Core.Identity
import DrExec.Runtime.Protocol

/-! # Declared jobs

The data of `declarations/models.py`. What a class checks when it is built is a field of its
structure here, so a value that breaks it cannot be made. -/

namespace DrExec.Declarations.Models

open DrExec.Core.Identity DrExec.Core.Model DrExec.Lib DrExec.Lib.Json DrExec.Runtime.Protocol

/-! ### Budgets -/

inductive OutputOverflowPolicy
  | fail
  | markedTruncation
  deriving DecidableEq, Repr

structure StreamRetentionBudget where
  headBytes : ℕ
  tailBytes : ℕ
  deriving DecidableEq, Repr

structure PayloadRetentionBudget where
  stdout : StreamRetentionBudget
  stderr : StreamRetentionBudget
  deriving DecidableEq, Repr

/-- The bytes that a retention keeps. -/
def PayloadRetentionBudget.retainedBytes (retention : PayloadRetentionBudget) : ℕ :=
  retention.stdout.headBytes + retention.stdout.tailBytes + retention.stderr.headBytes +
    retention.stderr.tailBytes

structure FiniteOutput where
  maxBytes : ℕ+
  overflowPolicy : OutputOverflowPolicy
  retention : PayloadRetentionBudget
  retention_must_match_max_bytes : retention.retainedBytes = maxBytes

inductive OutputBudget
  | unbudgeted
  | finite (output : FiniteOutput)

/-- `Budgets`; an axis that v1 cannot enforce is unbudgeted. -/
structure Budgets where
  wallTime : Budget := .unbudgeted
  inputBytes : Budget := .unbudgeted
  payloadOutput : OutputBudget := .unbudgeted
  memoryBytes : Budget := .unbudgeted
  cpuTime : Budget := .unbudgeted
  processCount : Budget := .unbudgeted
  fileSizeBytes : Budget := .unbudgeted
  openFileCount : Budget := .unbudgeted
  diskBytes : Budget := .unbudgeted
  unsupported_axes_must_be_unbudgeted :
    ∀ axis ∈ [memoryBytes, cpuTime, processCount, fileSizeBytes, openFileCount, diskBytes],
      axis = .unbudgeted := by simp

/-- The first integer that converts to no float: so many nanoseconds are no number of seconds. -/
def floatOverflow : ℤ := 2 ^ 1024 - 2 ^ 970

theorem unbudgeted_axes : ∀ axis ∈ [Budget.unbudgeted, .unbudgeted, .unbudgeted, .unbudgeted,
    .unbudgeted, .unbudgeted], axis = .unbudgeted := by
  simp

/-! ### Grants -/

inductive EnvGrantKind
  | none
  | named
  | fixed
  | overlay
  deriving DecidableEq, Repr

/-- `_validate_env_var_name` -/
def ValidEnvVarName (name : Str) : Prop := name ≠ [] ∧ equalsSign ∉ name ∧ nul ∉ name

instance : DecidablePred ValidEnvVarName := fun _ => inferInstanceAs (Decidable (_ ∧ _))

structure EnvVar where
  name : Str
  value : Str
  valid_name : ValidEnvVarName name
  valid_value : nul ∉ value

/-- What `EnvGrant` checks of its names. -/
structure GrantedNames (kind : EnvGrantKind) (names excluded : List Str) : Prop where
  none_empty : kind = .none → names = []
  overlay_excludes : kind ≠ .overlay → excluded = []
  names_nodup : names.Nodup
  excluded_valid : ∀ name ∈ excluded, ValidEnvVarName name
  excluded_nodup : excluded.Nodup
  disjoint : names.Disjoint excluded

/-- `EnvGrant`; `vars` is its `variables`. -/
structure EnvGrant where
  kind : EnvGrantKind
  vars : List EnvVar
  excludedVarNames : List Str := []
  valid : GrantedNames kind (vars.map EnvVar.name) excludedVarNames

/-- `EnvGrant.none` -/
def EnvGrant.empty : EnvGrant where
  kind := .none
  vars := []
  valid := ⟨fun _ => rfl, fun _ => rfl, .nil, nofun, .nil, List.disjoint_nil_left []⟩

/-- `WorkingDirectoryGrant`; a caller's path by its POSIX spelling. -/
inductive WorkingDirectoryGrant
  | scratch
  | caller (path : Str)
  deriving DecidableEq

/-! ### Targets -/

/-- What `_validate_argv` admits. -/
structure Argv where
  arguments : List Str
  nonempty : arguments ≠ []
  elements : ∀ argument ∈ arguments, argument ≠ [] ∧ nul ∉ argument

/-- `argv[0]` -/
def Argv.name (argv : Argv) : Str := argv.arguments.head argv.nonempty

inductive ContainmentProfile
  | processBoundaryOnly
  deriving DecidableEq, Repr

structure ImportableEntryPoint where
  moduleName : Str
  attributeName : Str
  deriving DecidableEq

inductive ExecutionTarget
  | trustedCommand (argv : Argv) (stdin : Bytes)
  | trustedPython (driverSource : Str) (request : IdentityDocument)
  | untrustedCommand (argv : Argv) (stdin : Bytes) (containmentProfile : ContainmentProfile)
  | untrustedPython (driverSource : Str) (request : IdentityDocument)
      (containmentProfile : ContainmentProfile)
  | inProcessImportableJson (entryPoint : ImportableEntryPoint) (request : IdentityDocument)

/-- The argument vector of a command target. -/
def ExecutionTarget.commandArgv : ExecutionTarget → Option Argv
  | trustedCommand argv _ => some argv
  | untrustedCommand argv _ _ => some argv
  | _ => none

structure ExecutionJob where
  target : ExecutionTarget
  env : EnvGrant
  budgets : Budgets := {}
  workspace : WorkingDirectoryGrant := .scratch

end DrExec.Declarations.Models
