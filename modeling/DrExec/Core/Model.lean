import DrExec.Lib.JsonForm

/-! # Strict contract values

What a `ContractModel` field accepts. Its models are strict: a `bool` is not an `int`. A `str` may
hold a lone surrogate, which comes of bytes that are no UTF-8; only a field with a constraint refuses
it, and the reading of JSON text. `none` is a `ValidationError`. -/

namespace DrExec.Core.Model

open DrExec.Lib DrExec.Lib.Json

/-! ### Characters -/

def nul : CodePoint := 0

def hyphen : CodePoint := 45

def dot : CodePoint := 46

def slash : CodePoint := 47

def colon : CodePoint := 58

def equalsSign : CodePoint := 61

/-! ### Strings -/

/-- A string that a `str` field holds. -/
structure Text where
  value : Str
  deriving DecidableEq

/-- A literal of the source. -/
def Text.lit (s : String) : Text := ⟨text s⟩

/-- Concatenation. -/
def Text.append (s t : Text) : Text := ⟨s.value ++ t.value⟩

/-- A string without surrogates. -/
def Text.Scalar (t : Text) : Prop := ∀ c ∈ t.value, IsScalar c

instance : DecidablePred Text.Scalar := fun t => List.decidableBAll IsScalar t.value

/-- A strict `str` field. -/
def textForm : Form Text :=
  .spelled Text.value (fun s => some ⟨s⟩)
    (fun s t hs h => by
      obtain rfl : Text.mk s = t := Option.some.inj h
      exact hs)
    (fun _ => rfl)

/-! ### Integers -/

/-- An instance of Python's `int`; a `bool` is one. -/
inductive PyInt
  | int (n : ℤ)
  | bool (b : Bool)
  deriving DecidableEq, Repr

/-- The number it compares equal to. -/
def PyInt.toInt : PyInt → ℤ
  | int n => n
  | bool b => b.toNat

/-- A strict `int` field given an instance of `int`. -/
def PyInt.strict : PyInt → Option ℤ
  | int n => some n
  | bool _ => none

end DrExec.Core.Model
