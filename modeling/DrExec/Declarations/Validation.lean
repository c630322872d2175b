import DrExec.Core.Scalars
import DrExec.Declarations.Models
import DrExec.Lib.JsonText

/-! # Declaration validation

The checks of `declarations/validation.py` that a job passes before anything is spawned. An error is
the message of its `DeclarationError`. -/

namespace DrExec.Declarations.Validation

open DrExec.Core.Identity DrExec.Core.Model DrExec.Core.Scalars DrExec.Declarations.Models
open DrExec.Lib DrExec.Lib.Json DrExec.Runtime.Protocol

/-- `str` of a number. -/
def decimal (n : ℕ) : Str := (natText n).map fun b => Fin.ofNat _ b.toNat

/-- `Path(path).is_absolute()` -/
def isAbsolute (path : Str) : Bool := path.head? = some slash

/-- `granted_environment` -/
def grantedEnvironment (grant : EnvGrant) : List (Str × Str) :=
  grant.vars.map fun granted => (granted.name, granted.value)

section

variable (requestTransportBytes : IdentityDocument → Bytes)

/-- `_declared_input_bytes` -/
def declaredInputBytes (job : ExecutionJob) : Bytes :=
  match job.target with
  | .trustedCommand _ stdin | .untrustedCommand _ stdin _ => stdin
  | .trustedPython _ request | .untrustedPython _ request _ | .inProcessImportableJson _ request =>
    requestTransportBytes request

def validateInputBudget (job : ExecutionJob) (stdinBytes : Bytes) : Except Str Unit :=
  match job.budgets.inputBytes.limit with
  | none => .ok ()
  | some limit =>
    if limit < stdinBytes.length then
      .error (text "declared input of " ++ decimal stdinBytes.length ++ text " bytes exceeds the " ++
        decimal limit ++ text "-byte input budget")
    else .ok ()

/-- `granted_path.split(os.pathsep)` -/
def pathEntries (grantedPath : Str) : List Str := grantedPath.splitOn colon

def validateCommandResolvability (argv : Argv) (environment : List (Str × Str)) : Except Str Unit :=
  if isAbsolute argv.name then .ok ()
  else if slash ∈ argv.name then
    .error (text "a relative executable must be a separator-free PATH name: " ++ argv.name)
  else
    match environment.lookup (text "PATH") with
    | none => .error (text "a relative executable requires a granted PATH: " ++ argv.name)
    | some grantedPath =>
      match (pathEntries grantedPath).find? fun entry => !isAbsolute entry with
      | some entry =>
        .error (text "a granted PATH resolves only through absolute entries: " ++ entry)
      | none => .ok ()

/-- `absolute_caller_workspace_declaration_error` -/
def absoluteCallerWorkspaceDeclarationError (posix : Str) : Option Str :=
  if posix = [] then some (text "caller working-directory paths must be absolute")
  else if isAbsolute posix then none
  else some (text "caller working-directory paths must be absolute: " ++ posix)

/-- `persisted_caller_workspace_path_shape_error` -/
def persistedCallerWorkspacePathShapeError (path : Str) : Option Str :=
  if path = [] then some (text "caller working-directory paths must be absolute")
  else if pathRoot path = .relative then
    some (text "caller working-directory paths must be absolute: " ++ path)
  else if path ≠ spellPath (pathRoot path) (pathParts path) then
    some (text "caller working-directory paths must be canonical: " ++ path)
  else if dotDot ∈ pathParts path then
    some (text "caller working-directory paths must be canonical: " ++ path)
  else none

def validateWorkingDirectoryGrant : WorkingDirectoryGrant → Except Str Unit
  | .scratch => .ok ()
  | .caller path =>
    match absoluteCallerWorkspaceDeclarationError path with
    | some shapeError => .error shapeError
    | none => .ok ()

/-- `validate_declaration` -/
def validateDeclaration (job : ExecutionJob) : Except Str Unit := do
  validateInputBudget job (declaredInputBytes requestTransportBytes job)
  validateWorkingDirectoryGrant job.workspace
  match job.target with
  | .inProcessImportableJson _ _ =>
    if job.workspace ≠ .scratch then
      .error (text "in-process importable JSON jobs accept only scratch working-directory grants")
    else if job.env.kind ≠ .none then
      .error (text "in-process importable JSON jobs accept no environment grant")
    else
      match job.budgets.payloadOutput with
      | .finite _ =>
        .error (text "in-process importable JSON jobs accept no finite payload_output budget")
      | .unbudgeted => .ok ()
  | .trustedCommand argv _ | .untrustedCommand argv _ _ =>
    validateCommandResolvability argv (grantedEnvironment job.env)
  | .trustedPython _ _ | .untrustedPython _ _ _ => .ok ()

end

/-! ### What an accepted job is -/

variable {requestTransportBytes : IdentityDocument → Bytes} {job : ExecutionJob} {argv : Argv}

/-- A declared name that is not absolute is free of separators, and every entry of the granted
`PATH` is absolute. -/
theorem resolvable_of_validated {environment : List (Str × Str)}
    (h : validateCommandResolvability argv environment = .ok ()) (hname : isAbsolute argv.name = false) :
    slash ∉ argv.name ∧ ∃ grantedPath, environment.lookup (text "PATH") = some grantedPath ∧
      ∀ entry ∈ pathEntries grantedPath, isAbsolute entry = true := by
  unfold validateCommandResolvability at h
  rw [hname] at h
  simp only [Bool.false_eq_true, if_false] at h
  split at h
  · cases h
  next hslash =>
  split at h
  · cases h
  next grantedPath hpath =>
  split at h
  · cases h
  next hfind => exact ⟨hslash, grantedPath, hpath, by simpa using List.find?_eq_none.mp hfind⟩

theorem resolvability_of_validated (h : validateDeclaration requestTransportBytes job = .ok ())
    (hargv : job.target.commandArgv = some argv) :
    validateCommandResolvability argv (grantedEnvironment job.env) = .ok () := by
  unfold validateDeclaration at h
  cases hinput : validateInputBudget job (declaredInputBytes requestTransportBytes job) with
  | error message => rw [hinput] at h; cases h
  | ok =>
    cases hworkspace : validateWorkingDirectoryGrant job.workspace with
    | error message => rw [hinput, hworkspace] at h; cases h
    | ok =>
      rw [hinput, hworkspace] at h
      cases htarget : job.target with
      | trustedCommand declared stdin =>
        rw [htarget] at h hargv
        obtain rfl : declared = argv := Option.some.inj hargv
        exact h
      | untrustedCommand declared stdin profile =>
        rw [htarget] at h hargv
        obtain rfl : declared = argv := Option.some.inj hargv
        exact h
      | trustedPython | untrustedPython | inProcessImportableJson =>
        rw [htarget] at hargv
        cases hargv

/-- An accepted caller's directory is absolute. -/
theorem absolute_of_validated {path : Str}
    (h : validateWorkingDirectoryGrant (.caller path) = .ok ()) : isAbsolute path = true := by
  simp only [validateWorkingDirectoryGrant, absoluteCallerWorkspaceDeclarationError] at h
  by_contra hrelative
  split_ifs at h

end DrExec.Declarations.Validation
