import DrExec.Declarations.Validation
import DrExec.Execution.Spawn

/-! # Which file a command job runs

`_resolve_executable` of `execution/engine.py`, with `shutil.which`, and the two calls of the
bootstrap process that depend on the filesystem. The parent looks the declared name up in the
granted `PATH`; what it does not find it passes on as it is, and the child meets it in the working
directory. What `execv` cannot encode it does not refuse with an `OSError`, so nothing is reported of
it. -/

namespace DrExec.Execution.Resolve

open DrExec.Core.Identity DrExec.Core.Model DrExec.Lib DrExec.Lib.Json DrExec.Declarations.Models
open DrExec.Declarations.Validation DrExec.Execution.Spawn DrExec.Recording.Outcomes

/-! ### The filesystem -/

/-- What is at a path, links followed. Entering a directory or loading an executable file may fail,
with an error number. -/
inductive Node
  | absent (errno : ℤ)
  | directory (enter : Option ℤ)
  | file (executable : Bool) (load : Option ℤ)
  deriving DecidableEq, Repr

/-- `os.path.join` -/
def joinPath (directory name : Str) : Str :=
  if isAbsolute name then name
  else if directory = [] ∨ directory.getLast? = some slash then directory ++ name
  else directory ++ slash :: name

/-- The path that a process in `directory` means. -/
def seenFrom (directory path : Str) : Str := if isAbsolute path then path else joinPath directory path

/-- What `run` passes to the bootstrap process of a command job. -/
structure Launch where
  executable : Str
  argv : Argv
  environment : List (Str × Str)
  directory : Str

/-- The filesystem by its absolute paths, which strings `os.fsencode` encodes (those of anything that
is there, for one), the directory of the parent, `Path.resolve`, the fresh directory of
`_scratch_workspace`, and how `launch_bootstrap` ends. -/
structure Host where
  node : Str → Node
  encodes : Str → Bool
  encodes_directory : ∀ path enter, node path = .directory enter → encodes path = true
  parentDirectory : Str
  resolve : Str → Str
  launchBootstrap : Launch → CallResult
  scratch : Str
  scratch_enters : node scratch = .directory none
  scratch_empty : ∀ name executable load, slash ∉ name →
    node (joinPath scratch name) ≠ .file executable load

variable (host : Host)

/-- `_access_check` of `shutil.which`, for a path of the parent. -/
def Host.accessCheck (path : Str) : Bool :=
  match host.node (seenFrom host.parentDirectory path) with
  | .file executable _ => executable
  | _ => false

/-- `shutil.which` of a name without a directory part. -/
def Host.which (name grantedPath : Str) : Option Str :=
  if grantedPath = [] then none
  else ((pathEntries grantedPath).map fun entry => joinPath entry name).find? host.accessCheck

/-- `_resolve_executable` -/
def resolveExecutable (argv : Argv) (environment : List (Str × Str)) : Str :=
  if isAbsolute argv.name then argv.name
  else
    match environment.lookup (text "PATH") with
    | none => argv.name
    | some grantedPath => (host.which argv.name grantedPath).getD argv.name

/-- `resolve_working_directory_grant` -/
def resolveWorkingDirectoryGrant (grant : WorkingDirectoryGrant) :
    Except Str WorkingDirectoryGrant := do
  validateWorkingDirectoryGrant grant
  match grant with
  | .scratch => .ok .scratch
  | .caller path =>
    match host.node (host.resolve path) with
    | .directory _ => .ok (.caller (host.resolve path))
    | _ =>
      .error (text "caller working-directory paths must name an existing directory: " ++
        host.resolve path)

/-- `_working_directory` -/
def workingDirectory : WorkingDirectoryGrant → Str
  | .scratch => host.scratch
  | .caller path => host.resolve path

/-- `os.chdir` of a bootstrap process; a `UnicodeEncodeError` is no `OSError`. -/
def Host.chdir (directory : Str) : CallResult :=
  if host.encodes directory = false then .raises
  else
    match host.node directory with
    | .absent errno => .osError errno
    | .directory none => .returns
    | .directory (some errno) => .osError errno
    | .file _ _ => .osError (some 20)

/-- `os.execv` of a process in `directory`, which encodes the path and every argument. -/
def Host.execv (directory path : Str) (argv : Argv) : CallResult :=
  if (path :: argv.arguments).all host.encodes = false then .raises
  else
    match host.node (seenFrom directory path) with
    | .absent errno => .osError errno
    | .directory _ => .osError (some 13)
    | .file false _ => .osError (some 13)
    | .file true none => .returns
    | .file true (some errno) => .osError errno

/-! ### An attempt -/

/-- `_EngineCall.run` of a command job up to its attempt; an error is a `DeclarationError`. -/
def launch (requestTransportBytes : IdentityDocument → Bytes) (job : ExecutionJob) (argv : Argv) :
    Except Str Launch := do
  validateDeclaration requestTransportBytes job
  let workspace ← resolveWorkingDirectoryGrant host job.workspace
  return { executable := resolveExecutable host argv (grantedEnvironment job.env)
           argv := argv
           environment := grantedEnvironment job.env
           directory := workingDirectory host workspace }

/-- The bootstrap process, when nothing but the filesystem is in its way. -/
def Launch.bootstrap (l : Launch) : Bootstrap :=
  { chdir := host.chdir l.directory, execv := host.execv l.directory l.executable l.argv }

/-- The file that the bootstrap process turns into, if there is such a process. -/
def Launch.executed (l : Launch) : Option Str :=
  if host.launchBootstrap l = .returns ∧ (l.bootstrap host).setup = .reached then
    some (seenFrom l.directory l.executable)
  else none

/-- `_run_spawned`: what the attempt comes to. -/
def Launch.attempt (l : Launch) (jsonLoads : Bytes → Option Json) (events : List ReadEvent)
    (carried : Carried) (ending : Ending) : Option (Except AttemptError ExecutionOutcome) :=
  match host.launchBootstrap l with
  | .returns => carryAttempt jsonLoads ⟨l.argv.name⟩ events carried ending
  | .osError _ => some (.error (.executorFailure .bootstrapStartFailed))
  | .raises | .killed => some (.error .other)

/-! ### What is looked up and what is run -/

variable {host} {argv : Argv} {environment : List (Str × Str)}

/-- Some entry of the granted `PATH` holds an executable of the declared name. -/
def Granted (host : Host) (argv : Argv) (environment : List (Str × Str)) (path : Str) : Prop :=
  ∃ grantedPath entry, environment.lookup (text "PATH") = some grantedPath ∧
    entry ∈ pathEntries grantedPath ∧ isAbsolute entry = true ∧ path = joinPath entry argv.name ∧
    host.accessCheck path = true

theorem isAbsolute_joinPath {directory name : Str} (h : isAbsolute directory = true) :
    isAbsolute (joinPath directory name) = true := by
  unfold joinPath
  split_ifs with hname
  · exact hname
  all_goals cases directory with
    | nil => simp [isAbsolute] at h
    | cons c rest => simpa [isAbsolute] using h

theorem seenFrom_of_absolute {directory path : Str} (h : isAbsolute path = true) :
    seenFrom directory path = path := if_pos h

theorem seenFrom_of_relative {directory path : Str} (h : isAbsolute path = false) :
    seenFrom directory path = joinPath directory path := if_neg (by simp [h])

/-- A name without separators is passed on as it is exactly when no entry of an accepted `PATH`
holds an executable of that name. -/
theorem resolveExecutable_cases (host : Host)
    (hvalid : validateCommandResolvability argv environment = .ok ())
    (hname : isAbsolute argv.name = false) :
    Granted host argv environment (resolveExecutable host argv environment) ∨
      (resolveExecutable host argv environment = argv.name ∧
        ∀ path, ¬ Granted host argv environment path) := by
  obtain ⟨-, grantedPath, hpath, habsolute⟩ := resolvable_of_validated hvalid hname
  have hne : grantedPath ≠ [] := by
    rintro rfl
    exact absurd (habsolute [] (by simp [pathEntries])) (by simp [isAbsolute])
  have hresolve : resolveExecutable host argv environment =
      (host.which argv.name grantedPath).getD argv.name := by simp [resolveExecutable, hname, hpath]
  have hwhich : host.which argv.name grantedPath =
      ((pathEntries grantedPath).map fun entry => joinPath entry argv.name).find?
        host.accessCheck := if_neg hne
  rw [hresolve, hwhich]
  cases hfind : ((pathEntries grantedPath).map fun entry => joinPath entry argv.name).find?
      host.accessCheck with
  | some path =>
    obtain ⟨entry, hentry, rfl⟩ := List.mem_map.mp (List.mem_of_find?_eq_some hfind)
    exact .inl ⟨grantedPath, entry, hpath, hentry, habsolute entry hentry, rfl,
      List.find?_some hfind⟩
  | none =>
    refine .inr ⟨rfl, ?_⟩
    rintro path ⟨grantedPath', entry, hpath', hentry, -, rfl, hcheck⟩
    obtain rfl : grantedPath = grantedPath' := Option.some.inj (hpath.symm.trans hpath')
    have hnone := List.find?_eq_none.mp hfind (joinPath entry argv.name)
      (List.mem_map.mpr ⟨entry, hentry, rfl⟩)
    exact hnone hcheck

/-- The setup is the two calls. -/
theorem Launch.setup_eq (host : Host) (l : Launch) :
    (l.bootstrap host).setup = runCalls
      [(some .chdir, host.chdir l.directory), (some .exec, host.execv l.directory l.executable l.argv)] :=
  rfl

theorem Launch.setup_reached_iff {l : Launch} :
    (l.bootstrap host).setup = .reached ↔
      host.chdir l.directory = .returns ∧ host.execv l.directory l.executable l.argv = .returns := by
  rw [Launch.setup_eq]
  cases host.chdir l.directory <;> cases host.execv l.directory l.executable l.argv <;>
    simp [runCalls]

/-- A call that is refused with an `OSError`: entering the directory, or running the file. -/
def Refused (host : Host) (directory path : Str) (argv : Argv) : Prop :=
  (∃ errno, host.chdir directory = .osError errno) ∨
    host.chdir directory = .returns ∧ ∃ errno, host.execv directory path argv = .osError errno

/-- A setup is reported exactly when a call of it is refused. -/
theorem Launch.reports_iff {l : Launch} :
    (l.bootstrap host).Reports ↔ Refused host l.directory l.executable l.argv := by
  have hquiet : (l.bootstrap host).write = .returns ∧ (l.bootstrap host).replaced = false :=
    ⟨rfl, by simp [Launch.bootstrap, Bootstrap.replaced]⟩
  unfold Bootstrap.Reports Refused
  rw [Launch.setup_eq]
  simp only [hquiet, and_true]
  cases host.chdir l.directory <;> cases host.execv l.directory l.executable l.argv <;>
    simp [runCalls]

/-! ### Only the declared executable -/

/-- An outcome that says nothing was started. -/
def NothingStarted : ExecutionOutcome → Prop
  | .spawnAbsent _ => True
  | .spawnFailed _ _ => True
  | _ => False

/-- **Only the declared executable runs**: a file that runs is the declared absolute one or one that
the granted `PATH` holds, and where `PATH` holds none nothing runs and the attempt says so. -/
structure OnlyDeclared (host : Host) (l : Launch) (events : List ReadEvent) (ending : Ending) :
    Prop where
  declared : ∀ path, l.executed host = some path →
    (isAbsolute l.argv.name = true ∧ path = l.argv.name) ∨ Granted host l.argv l.environment path
  absent : isAbsolute l.argv.name = false → (∀ path, ¬ Granted host l.argv l.environment path) →
    l.executed host = none ∧
      ∀ jsonLoads carried result, ReadsDumpedObjects jsonLoads →
        l.attempt host jsonLoads events carried ending = some result →
        ∃ outcome, result = .ok outcome ∧ NothingStarted outcome

/-- Where the fallback to the bare name does no harm: the name is absolute or granted; or there is a
bootstrap process that cannot enter the working directory or run a file of that name, and once its
status was read to the end, it was refused with an `OSError` and the attempt completes. -/
def Contained (host : Host) (l : Launch) (events : List ReadEvent) (ending : Ending) : Prop :=
  isAbsolute l.argv.name = true ∨ (∃ path, Granted host l.argv l.environment path) ∨
    host.launchBootstrap l = .returns ∧
      (host.chdir l.directory ≠ .returns ∨ host.execv l.directory l.argv.name l.argv ≠ .returns) ∧
      (lastRound events ≠ none →
        Refused host l.directory l.argv.name l.argv ∧ Completes events ending)

theorem nothingStarted_iff {outcome : ExecutionOutcome} :
    NothingStarted outcome ↔ NeverRan (.ok outcome) := by
  cases outcome <;> exact Iff.rfl

theorem launch_eq {requestTransportBytes : IdentityDocument → Bytes} {job : ExecutionJob} {l : Launch}
    (h : launch host requestTransportBytes job argv = .ok l) :
    validateDeclaration requestTransportBytes job = .ok () ∧
      l.executable = resolveExecutable host argv l.environment ∧
      l.argv = argv ∧ l.environment = grantedEnvironment job.env := by
  unfold launch at h
  cases hvalid : validateDeclaration requestTransportBytes job with
  | error message => rw [hvalid] at h; cases h
  | ok =>
    cases hworkspace : resolveWorkingDirectoryGrant host job.workspace with
    | error message => rw [hvalid, hworkspace] at h; cases h
    | ok workspace =>
      rw [hvalid, hworkspace] at h
      obtain rfl := Except.ok.inj h
      exact ⟨rfl, rfl, rfl, rfl⟩

theorem executed_eq_some_iff {l : Launch} {path : Str} :
    l.executed host = some path ↔
      (host.launchBootstrap l = .returns ∧ (l.bootstrap host).setup = .reached) ∧
        path = seenFrom l.directory l.executable := by
  unfold Launch.executed
  split_ifs with h
  · simp [h, eq_comm]
  · simp [h]

section Bare

variable {l : Launch} {events : List ReadEvent} {ending : Ending}

/-- What a bare name that was passed on promises: nothing runs, and an attempt whose read has ended is
refused and completes. -/
theorem contained_of_absent (hbare : l.executable = l.argv.name)
    (hdelivers : Delivers (l.bootstrap host).status events) (hnone : l.executed host = none)
    (hends : ∀ jsonLoads carried result, ReadsDumpedObjects jsonLoads →
      l.attempt host jsonLoads events carried ending = some result →
      ∃ outcome, result = .ok outcome ∧ NothingStarted outcome) :
    host.launchBootstrap l = .returns ∧
      (host.chdir l.directory ≠ .returns ∨ host.execv l.directory l.argv.name l.argv ≠ .returns) ∧
      (lastRound events ≠ none →
        Refused host l.directory l.argv.name l.argv ∧ Completes events ending) := by
  have hends := hends loadsLine { returncode := 1 }
  have hlaunched : host.launchBootstrap l = .returns := by
    by_contra hnot
    unfold Launch.attempt at hends
    cases hlaunch : host.launchBootstrap l with
    | returns => exact hnot hlaunch
    | osError | raises | killed =>
      rw [hlaunch] at hends
      obtain ⟨outcome, houtcome, -⟩ := hends _ readsDumpedObjects_loadsLine rfl
      cases houtcome
  have hattempt : ∀ result,
      carryAttempt loadsLine ⟨l.argv.name⟩ events { returncode := 1 } ending = some result →
      ∃ outcome, result = .ok outcome ∧ NothingStarted outcome := by
    intro result hresult
    refine hends result readsDumpedObjects_loadsLine ?_
    rw [Launch.attempt, hlaunched]
    exact hresult
  have hsetup : (l.bootstrap host).setup ≠ .reached := by
    intro hreached
    have hsome := executed_eq_some_iff.mpr ⟨⟨hlaunched, hreached⟩, rfl⟩
    rw [hnone] at hsome
    cases hsome
  refine ⟨hlaunched, ?_, fun hended => ?_⟩
  · rw [ne_eq, Launch.setup_reached_iff, hbare] at hsetup
    exact not_and_or.mp hsetup
  · have htold : Told (l.bootstrap host) events ending := by
      refine @told_of_attempt loadsLine _ _ _ ⟨l.argv.name⟩ hdelivers fun result hresult => ?_
      obtain ⟨outcome, rfl, hnothing⟩ := hattempt result hresult
      exact nothingStarted_iff.mp hnothing
    rcases htold with h | h | ⟨htimeout, hquiet⟩ | ⟨hreports, hcompletes⟩
    · exact absurd h hsetup
    · exact absurd h hended
    · obtain ⟨outcome, houtcome, -⟩ :=
        hattempt _ (carryAttempt_of_timeout htimeout hquiet ⟨l.argv.name⟩ { returncode := 1 })
      cases houtcome
    · rw [Launch.reports_iff, hbare] at hreports
      exact ⟨hreports, hcompletes⟩

/-- A bare name that is contained is reported as not started. -/
theorem nothingStarted_of_contained (hbare : l.executable = l.argv.name)
    (hdelivers : Delivers (l.bootstrap host).status events)
    (hlaunched : host.launchBootstrap l = .returns)
    (hends : lastRound events ≠ none →
      Refused host l.directory l.argv.name l.argv ∧ Completes events ending)
    {jsonLoads : Bytes → Option Json} (hloads : ReadsDumpedObjects jsonLoads) {carried : Carried}
    {result : Except AttemptError ExecutionOutcome}
    (h : l.attempt host jsonLoads events carried ending = some result) :
    ∃ outcome, result = .ok outcome ∧ NothingStarted outcome := by
  rw [Launch.attempt, hlaunched] at h
  have hended : lastRound events ≠ none := by
    intro hnone
    rw [carryAttempt_of_waiting hnone] at h
    cases h
  obtain ⟨hrefused, hcompletes⟩ := hends hended
  have hreports : (l.bootstrap host).Reports := by
    rwa [Launch.reports_iff, hbare]
  obtain ⟨outcome, houtcome, hnever⟩ :=
    carryAttempt_of_completes hloads hdelivers hreports hcompletes ⟨l.argv.name⟩ carried
  exact ⟨outcome, Option.some.inj (h.symm.trans houtcome), nothingStarted_iff.mpr hnever⟩

end Bare

/-- A fresh directory holds no file, so nothing runs in one that was not declared; and where the name
and the arguments can be encoded, the attempt says so. -/
theorem contained_scratch {l : Launch} {events : List ReadEvent} {ending : Ending}
    (hvalid : validateCommandResolvability l.argv l.environment = .ok ())
    (hscratch : l.directory = host.scratch) (hlaunched : host.launchBootstrap l = .returns)
    (hargv : l.argv.arguments.all host.encodes = true)
    (hcompletes : lastRound events ≠ none → Completes events ending) :
    Contained host l events ending := by
  cases hname : isAbsolute l.argv.name with
  | true => exact .inl hname
  | false =>
    have hslash := (resolvable_of_validated hvalid hname).1
    have hempty := fun executable load =>
      host.scratch_empty l.argv.name executable load hslash
    have hself : host.encodes l.argv.name = true :=
      List.all_eq_true.mp hargv _ (List.head_mem l.argv.nonempty)
    have hexecv : ∃ errno, host.execv l.directory l.argv.name l.argv = .osError errno := by
      unfold Host.execv
      rw [if_neg (by simp [hself, hargv]), hscratch, seenFrom_of_relative hname]
      split <;> simp_all
    have hchdir : host.chdir l.directory = .returns := by
      have hencodes := host.encodes_directory _ _ host.scratch_enters
      simp [Host.chdir, hscratch, hencodes, host.scratch_enters]
    obtain ⟨errno, herrno⟩ := hexecv
    refine .inr (.inr ⟨hlaunched, .inr (by simp [herrno]), fun hended => ⟨?_, hcompletes hended⟩⟩)
    exact .inr ⟨hchdir, errno, herrno⟩

/-! ### A directory with a file of that name -/

theorem prefix_joinPath (directory : Str) {name : Str} (h : isAbsolute name = false) :
    directory <+: joinPath directory name := by
  unfold joinPath
  rw [if_neg (by simp [h])]
  split_ifs <;> exact List.prefix_append _ _

/-- A host with `tool` in a caller's directory and nothing else. -/
def toolHost : Host where
  node path :=
    if path = text "/work/tool" then .file true none
    else if path = text "/work" ∨ path = text "/scratch" then .directory none
    else .absent 2
  encodes path := path.all fun c => IsScalar c
  encodes_directory path enter h := by
    split_ifs at h with _ hwork
    rcases hwork with rfl | rfl <;> decide +kernel
  parentDirectory := text "/"
  resolve := id
  launchBootstrap _ := .returns
  scratch := text "/scratch"
  scratch_enters := by decide +kernel
  scratch_empty name executable load hslash := by
    have hname : isAbsolute name = false := by
      cases name with
      | nil => rfl
      | cons c rest => simpa [isAbsolute, eq_comm] using List.ne_of_not_mem_cons hslash
    have hne : joinPath (text "/scratch") name ≠ text "/work/tool" := by
      intro h
      have hprefix := h ▸ prefix_joinPath (text "/scratch") hname
      exact absurd hprefix (by decide +kernel)
    rw [if_neg hne]
    split_ifs <;> simp

def toolArgv : Argv := ⟨[text "tool"], by simp, by decide +kernel⟩

theorem path_valid : ValidEnvVarName (text "PATH") := by decide +kernel

theorem bin_valid : nul ∉ text "/bin" := by decide +kernel

theorem path_granted : GrantedNames .fixed [text "PATH"] [] where
  none_empty h := by cases h
  overlay_excludes _ := rfl
  names_nodup := List.nodup_singleton _
  excluded_valid _ h := by cases h
  excluded_nodup := .nil
  disjoint := List.disjoint_nil_right _

/-- A job for `tool` with an empty directory as its `PATH`. -/
def toolJob (workspace : WorkingDirectoryGrant) : ExecutionJob where
  target := .trustedCommand toolArgv []
  env :=
    { kind := .fixed
      vars := [⟨text "PATH", text "/bin", path_valid, bin_valid⟩]
      valid := path_granted }
  workspace := workspace

/-- What is launched of it in `directory`. -/
def toolLaunch (directory : Str) : Launch where
  executable := text "tool"
  argv := toolArgv
  environment := [(text "PATH", text "/bin")]
  directory := directory

/-- The rounds of an attempt whose line arrives whole. -/
def toolRounds : List ReadEvent :=
  [.chunk ((toolLaunch (text "/scratch")).bootstrap toolHost).status, .endOfFile]

theorem tool_not_granted (directory path : Str) :
    ¬ Granted toolHost toolArgv (toolLaunch directory).environment path := by
  rintro ⟨grantedPath, entry, hpath, hentry, -, rfl, hcheck⟩
  obtain rfl : text "/bin" = grantedPath := Option.some.inj hpath
  obtain rfl : entry = text "/bin" := by
    have hentries : pathEntries (text "/bin") = [text "/bin"] := by decide +kernel
    simpa [hentries] using hentry
  revert hcheck
  decide +kernel

end DrExec.Execution.Resolve
