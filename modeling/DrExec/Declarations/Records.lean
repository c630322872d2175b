import DrExec.Declarations.Models
import Mathlib.Data.Finset.Dedup

/-! # Declared budgets and grants in a record

The fields of `Budgets`, and `EnvGrantRecord`, which records the names of an environment grant and a
digest of its values. Its names are stored in the order that `canonical_sorted_values` of
dr_serialize gives them; that function is a parameter. -/

namespace DrExec.Declarations.Records

open DrExec.Core.Identity DrExec.Core.Model DrExec.Declarations.Models DrExec.Lib DrExec.Lib.Json
open DrExec.Runtime.Protocol DrExec.Runtime.Wire

/-! ### Budgets -/

/-- A budget whose finite limit is under `key`. -/
def limit (key : String) (hkey : "kind" ∉ [key] := by decide) : Form Budget :=
  ((.one "unbudgeted" .empty : Variants "kind" _ _).or
    (.one "finite" (.field key .pos) hkey)).form.refine
    (fun b => some (b.elim (fun _ => .unbudgeted) .finite))
    (fun
      | .unbudgeted => .inl ()
      | .finite max => .inr max)
    (by rintro (_ | _) <;> rfl)
    (by
      rintro (_ | _) _ h
      · exact Option.some.inj h ▸ rfl
      · exact Option.some.inj h ▸ rfl)

def byteBudget : Form Budget := limit "max_bytes"

def durationBudget : Form Budget := limit "max_ns"

def countBudget : Form Budget := limit "max_count"

def outputOverflowPolicy : Form OutputOverflowPolicy :=
  .enum [.fail, .markedTruncation]
    (fun
      | .fail => "fail"
      | .markedTruncation => "marked_truncation")
    (by rintro (_ | _) <;> simp)

def streamRetentionBudget : Form StreamRetentionBudget :=
  (Form.object ((Fields.field "head_bytes" .nat).and (.field "tail_bytes" .nat))).refine
    (fun b => some ⟨b.1, b.2⟩) (fun b => (b.headBytes, b.tailBytes)) (fun _ => rfl)
    (fun _ _ h => Option.some.inj h ▸ rfl)

theorem stdout_notMem : ∀ k ∈ ["stdout"], k ∉ ["stderr"] := by decide

def payloadRetentionBudget : Form PayloadRetentionBudget :=
  (Form.object <|
    (Fields.field "stdout" streamRetentionBudget).and (.field "stderr" streamRetentionBudget)
      stdout_notMem).refine
    (fun b => some ⟨b.1, b.2⟩) (fun b => (b.stdout, b.stderr)) (fun _ => rfl)
    (fun _ _ h => Option.some.inj h ▸ rfl)

/-- The fields of `FiniteOutput` beside its kind. -/
def finiteOutput : Fields ["max_bytes", "overflow_policy", "retention"]
    (ℕ+ × OutputOverflowPolicy × PayloadRetentionBudget) :=
  (Fields.field "max_bytes" .pos).and
    ((Fields.field "overflow_policy" outputOverflowPolicy).and
      (.field "retention" payloadRetentionBudget))

def outputBudget : Form OutputBudget :=
  ((.one "unbudgeted" .empty : Variants "kind" _ _).or (.one "finite" finiteOutput)).form.refine
    (fun
      | .inl _ => some .unbudgeted
      | .inr b =>
        if h : b.2.2.retainedBytes = b.1 then some (.finite ⟨b.1, b.2.1, b.2.2, h⟩) else none)
    (fun
      | .unbudgeted => .inl ()
      | .finite output => .inr (output.maxBytes, output.overflowPolicy, output.retention))
    (by
      rintro (_ | output)
      · rfl
      · exact dif_pos output.retention_must_match_max_bytes)
    (by
      rintro (_ | _) _ h
      · exact Option.some.inj h ▸ rfl
      · obtain ⟨_, rfl⟩ := eq_of_dite_some h
        rfl)

deriving instance DecidableEq for Budget

/-- The nine axes. -/
def budgetFields : Fields ["wall_time", "input_bytes", "payload_output", "memory_bytes", "cpu_time",
      "process_count", "file_size_bytes", "open_file_count", "disk_bytes"]
    (Budget × Budget × OutputBudget × Budget × Budget × Budget × Budget × Budget × Budget) :=
  (Fields.withDefault "wall_time" .unbudgeted durationBudget).and <|
  (Fields.withDefault "input_bytes" .unbudgeted byteBudget).and <|
  (Fields.withDefault "payload_output" .unbudgeted outputBudget).and <|
  (Fields.withDefault "memory_bytes" .unbudgeted byteBudget).and <|
  (Fields.withDefault "cpu_time" .unbudgeted durationBudget).and <|
  (Fields.withDefault "process_count" .unbudgeted countBudget).and <|
  (Fields.withDefault "file_size_bytes" .unbudgeted byteBudget).and <|
  (Fields.withDefault "open_file_count" .unbudgeted countBudget).and <|
  (Fields.withDefault "disk_bytes" .unbudgeted byteBudget)

def budgets : Form Budgets :=
  (Form.object budgetFields).refine
    (fun (wallTime, inputBytes, payloadOutput, memoryBytes, cpuTime, processCount, fileSizeBytes,
        openFileCount, diskBytes) =>
      if h : ∀ axis ∈ [memoryBytes, cpuTime, processCount, fileSizeBytes, openFileCount, diskBytes],
          axis = .unbudgeted then
        some ⟨wallTime, inputBytes, payloadOutput, memoryBytes, cpuTime, processCount,
          fileSizeBytes, openFileCount, diskBytes, h⟩
      else none)
    (fun b => (b.wallTime, b.inputBytes, b.payloadOutput, b.memoryBytes, b.cpuTime, b.processCount,
      b.fileSizeBytes, b.openFileCount, b.diskBytes))
    (fun b => dif_pos b.unsupported_axes_must_be_unbudgeted)
    (fun _ _ h => by
      obtain ⟨_, rfl⟩ := eq_of_dite_some h
      rfl)

/-! ### Environment grants -/

/-- What the records use of dr_serialize beside a `Codec`: `canonical_sorted_values`, of a set of
names. -/
structure RecordCodec extends Codec where
  canonicalSortedValues : Finset Str → List Str

def envGrantKind : Form EnvGrantKind :=
  .enum [.none, .named, .fixed, .overlay]
    (fun
      | .none => "none"
      | .named => "named"
      | .fixed => "fixed"
      | .overlay => "overlay")
    (by rintro (_ | _ | _ | _) <;> simp)

/-- The names of grants as they are recorded. -/
def spellings (names : List Text) : List Str := names.map Text.value

/-- `names_must_be_canonical_and_disjoint` -/
def RecordedNames (R : RecordCodec) (kind : EnvGrantKind) (varNames excluded : List Text) : Prop :=
  (kind = .none → varNames = []) ∧ (kind ≠ .overlay → excluded = []) ∧
    (∀ name ∈ varNames ++ excluded, ValidEnvVarName name.value) ∧
    spellings varNames = R.canonicalSortedValues (spellings varNames).toFinset ∧
    spellings excluded = R.canonicalSortedValues (spellings excluded).toFinset ∧
    ∀ name ∈ varNames, name ∉ excluded

instance (R : RecordCodec) (kind : EnvGrantKind) (varNames excluded : List Text) :
    Decidable (RecordedNames R kind varNames excluded) :=
  inferInstanceAs (Decidable (_ ∧ _))

structure EnvGrantRecord (R : RecordCodec) where
  kind : EnvGrantKind
  varNames : List Text
  excludedVarNames : List Text
  canonicalValuesSha256 : Sha256Digest R.toCodec
  valid : RecordedNames R kind varNames excludedVarNames

def envGrantRecord (R : RecordCodec) : Form (EnvGrantRecord R) :=
  (Form.object <|
    (Fields.field "kind" envGrantKind).and <|
    (Fields.field "var_names" (.list textForm)).and <|
    (Fields.field "excluded_var_names" (.list textForm)).and <|
    (Fields.field "canonical_values_sha256" (sha256Digest R.toCodec))).refine
    (fun (kind, varNames, excluded, digest) =>
      if h : RecordedNames R kind varNames excluded then some ⟨kind, varNames, excluded, digest, h⟩
      else none)
    (fun grant => (grant.kind, grant.varNames, grant.excludedVarNames, grant.canonicalValuesSha256))
    (fun grant => dif_pos grant.valid)
    (fun _ _ h => by
      obtain ⟨_, rfl⟩ := eq_of_dite_some h
      rfl)

end DrExec.Declarations.Records
