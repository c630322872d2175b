import DrExec.Declarations.Models
import DrExec.Lib.PyLiteral

/-! # Generated sources

`driver_wrapper_source` of `runtime/bootstrap.py` embeds a driver as inert data: one assignment of a
string literal, before a text that is the same for every job. `_driver_source` of
`importable_json.py` does so with the names of an entry point. The child reads back exactly what was
embedded, and what it runs besides does not depend on it (`sources_inert`). -/

namespace DrExec.Runtime.DriverSource

open DrExec.Core.Model DrExec.Declarations.Models DrExec.Lib DrExec.Lib.JsonLoads
open DrExec.Lib.PyLiteral

def lineFeed : CodePoint := 10

/-! ### The sources -/

/-- The lines of a source. -/
def joinLines (lines : List String) : Str := lines.flatMap fun line => text line ++ [lineFeed]

section Sources

variable (printable : CodePoint → Bool)

def driverEntrypointName : Str := text "dr_exec_main"

def driverSourceBinding : Str := text "DR_EXEC_DRIVER_SOURCE"

def protocolDescriptor : String := "3"

/-- `name = value` of a string, on a line of its own. -/
def assignment (name value : Str) : Str :=
  name ++ (text " = " ++ (pyRepr printable value ++ [lineFeed]))

/-- What follows the driver in its wrapper; the last part is `_WRAPPER_BODY`. -/
def wrapperRest (wrapperBody : Str) : Str :=
  joinLines ["_DR_EXEC_PROTOCOL_DESCRIPTOR = " ++ protocolDescriptor] ++
    (assignment printable (text "_DR_EXEC_ENTRYPOINT_NAME") driverEntrypointName ++ wrapperBody)

/-- `driver_wrapper_source`; `none` is its error. -/
def driverWrapperSource (wrapperBody driverSource : Str) : Option Str :=
  if nul ∈ driverSource then none
  else some (assignment printable driverSourceBinding driverSource ++ wrapperRest printable wrapperBody)

def envelopeSchema : Str := text "dr_exec.importable_json"

/-- `dr_exec_main` of a generated driver. -/
def driverMain : List String :=
  ["", "", "def dr_exec_main(request, emit):",
    "    if (",
    "        request[\"schema\"] != _DR_EXEC_ENVELOPE_SCHEMA",
    "        or request[\"schema_version\"] != _DR_EXEC_ENVELOPE_SCHEMA_VERSION",
    "    ):",
    "        raise ValueError(\"request does not use the importable JSON envelope\")",
    "    module = _dr_exec_importlib.import_module(_DR_EXEC_MODULE_NAME)",
    "    entry_point = getattr(module, _DR_EXEC_ATTRIBUTE_NAME)",
    "    if not callable(entry_point):",
    "        raise TypeError(\"the imported module attribute is not callable\")",
    "    result = entry_point(request[\"payload\"])",
    "    emit(\x7b",
    "        \"schema\": _DR_EXEC_ENVELOPE_SCHEMA,",
    "        \"schema_version\": _DR_EXEC_ENVELOPE_SCHEMA_VERSION,",
    "        \"payload\": result,",
    "    \x7d)"]

/-- What follows the names in a generated driver. -/
def driverRest : Str :=
  assignment printable (text "_DR_EXEC_ENVELOPE_SCHEMA") envelopeSchema ++
    joinLines ("_DR_EXEC_ENVELOPE_SCHEMA_VERSION = 1" :: driverMain)

def driverImports : Str := joinLines ["import importlib as _dr_exec_importlib", ""]

/-- `_driver_source` -/
def driverSource (entryPoint : ImportableEntryPoint) : Str :=
  driverImports ++
    (assignment printable (text "_DR_EXEC_MODULE_NAME") entryPoint.moduleName ++
      (assignment printable (text "_DR_EXEC_ATTRIBUTE_NAME") entryPoint.attributeName ++
        driverRest printable))

end Sources

/-! ### How they are read -/

/-- An assignment of a string literal to a name, as the first line of a source: the string, and the
source behind the line. -/
def readAssignment (name source : Str) : Option (Str × Str) :=
  (skipWord (name ++ text " = ") source).bind fun s => (readLiteral s).bind fun r =>
    match r.2 with
    | c :: rest => if c = lineFeed then some (r.1, rest) else none
    | [] => none

/-- The names that a driver binds, and the source behind them. -/
def readEntryPoint (source : Str) : Option (ImportableEntryPoint × Str) := do
  let source ← skipWord driverImports source
  let (moduleName, source) ← readAssignment (text "_DR_EXEC_MODULE_NAME") source
  let (attributeName, source) ← readAssignment (text "_DR_EXEC_ATTRIBUTE_NAME") source
  some (⟨moduleName, attributeName⟩, source)

variable {printable : CodePoint → Bool}

theorem skipWord_self (word rest : Str) : skipWord word (word ++ rest) = some rest := by
  rw [skipWord, if_pos (List.isPrefixOf_iff_prefix.mpr (List.prefix_append _ _)), List.drop_left]

/-- **An assignment reads back**, whatever string it is of. -/
theorem readAssignment_assignment (printable : CodePoint → Bool) (name value rest : Str) :
    readAssignment name (assignment printable name value ++ rest) = some (value, rest) := by
  have hquote : ∀ c ∈ (lineFeed :: rest).head?, ¬ IsQuote c := by
    simp [IsQuote, lineFeed, singleQuote, doubleQuote]
  have hsplit : assignment printable name value ++ rest =
      (name ++ text " = ") ++ (pyRepr printable value ++ lineFeed :: rest) := by
    simp [assignment]
  rw [readAssignment, hsplit, skipWord_self, Option.bind_some, readLiteral_pyRepr printable value hquote,
    Option.bind_some]
  exact if_pos rfl

theorem readEntryPoint_driverSource (printable : CodePoint → Bool) (entryPoint : ImportableEntryPoint) :
    readEntryPoint (driverSource printable entryPoint) =
      some (entryPoint, driverRest printable) := by
  simp only [readEntryPoint, driverSource, skipWord_self, readAssignment_assignment, bind,
    Option.bind_some]

/-! ### No driver is refused -/

theorem nul_not_mem_pyRepr (s : Str) : nul ∉ pyRepr printable s := by
  intro h
  exact absurd (inert_pyRepr printable s nul h).1 (by decide)

/-- A text without a NUL byte. -/
def Plain (s : String) : Prop := s.toByteArray.data.toList.all (· ≠ 0) = true

instance : DecidablePred Plain := fun _ => inferInstanceAs (Decidable (_ = true))

theorem nul_not_mem_text {s : String} (h : Plain s) : nul ∉ text s := by
  intro hmem
  obtain ⟨c, hc, hzero⟩ := List.mem_map.mp hmem
  have hnat : c.toNat = 0 := by
    have hlt : c.toNat < 0x110000 := by
      rcases c.valid with hlow | hhigh
      · exact lt_trans hlow (by decide)
      · exact hhigh.2
    have hval := congrArg Fin.val hzero
    rwa [Fin.val_ofNat, Nat.mod_eq_of_lt hlt] at hval
  obtain rfl : c = Char.ofNat 0 := by rw [← Char.ofNat_toNat c, hnat]
  have hbytes : s.toByteArray.data.toList = s.toList.flatMap String.utf8EncodeChar := by
    rw [← String.utf8Encode_toList]
    simp [List.utf8Encode]
  rw [Plain, hbytes, List.all_eq_true] at h
  exact absurd (h 0 (List.mem_flatMap.mpr ⟨_, hc, by decide⟩)) (by simp)

theorem nul_not_mem_joinLines {lines : List String} (h : ∀ line ∈ lines, Plain line) :
    nul ∉ joinLines lines := by
  intro hmem
  obtain ⟨line, hline, hnul⟩ := List.mem_flatMap.mp hmem
  rcases List.mem_append.mp hnul with hnul | hnul
  · exact nul_not_mem_text (h line hline) hnul
  · exact absurd (List.mem_singleton.mp hnul) (by decide)

theorem nul_not_mem_assignment {name : String} (hname : Plain name) (value : Str) :
    nul ∉ assignment printable (text name) value := by
  have hequals : nul ∉ text " = " := by decide +kernel
  simp only [assignment, List.mem_append, not_or]
  exact ⟨nul_not_mem_text hname, hequals, nul_not_mem_pyRepr value, by decide⟩

theorem nul_not_mem_driverSource (entryPoint : ImportableEntryPoint) :
    nul ∉ driverSource printable entryPoint := by
  have himports : nul ∉ driverImports := nul_not_mem_joinLines (by decide +kernel)
  have hlines : ∀ line ∈ "_DR_EXEC_ENVELOPE_SCHEMA_VERSION = 1" :: driverMain, Plain line := by
    decide +kernel
  simp only [driverSource, driverRest, List.mem_append, not_or]
  exact ⟨himports, nul_not_mem_assignment (by decide +kernel) _,
    nul_not_mem_assignment (by decide +kernel) _, nul_not_mem_assignment (by decide +kernel) _,
    nul_not_mem_joinLines hlines⟩

/-- **What is embedded is inert.** Whatever a driver holds but NUL, the child binds exactly that text
and then runs a source that does not depend on it; the driver of an entry point is never refused,
binds exactly its two names and goes on with a source that does not depend on them. So the code that
a child is given tells the driver, and that of an importable job its entry point. -/
theorem sources_inert (printable : CodePoint → Bool) (wrapperBody : Str) :
    (∀ source wrapper, driverWrapperSource printable wrapperBody source = some wrapper →
      readAssignment driverSourceBinding wrapper =
        some (source, wrapperRest printable wrapperBody)) ∧
    (∀ source, driverWrapperSource printable wrapperBody source = none ↔ nul ∈ source) ∧
    (∀ entryPoint, ∃ wrapper,
      driverWrapperSource printable wrapperBody (driverSource printable entryPoint) = some wrapper ∧
      (readAssignment driverSourceBinding wrapper).bind (fun r => readEntryPoint r.1) =
        some (entryPoint, driverRest printable)) := by
  have hread : ∀ source wrapper, driverWrapperSource printable wrapperBody source = some wrapper →
      readAssignment driverSourceBinding wrapper =
        some (source, wrapperRest printable wrapperBody) := by
    intro source wrapper h
    unfold driverWrapperSource at h
    split_ifs at h
    obtain rfl := Option.some.inj h
    exact readAssignment_assignment printable _ _ _
  refine ⟨hread, fun source => ?_, fun entryPoint => ?_⟩
  · simp [driverWrapperSource]
  · have hwrapped : driverWrapperSource printable wrapperBody (driverSource printable entryPoint) =
        some _ := if_neg (nul_not_mem_driverSource entryPoint)
    refine ⟨_, hwrapped, ?_⟩
    rw [hread _ _ hwrapped]
    exact readEntryPoint_driverSource printable entryPoint

end DrExec.Runtime.DriverSource
