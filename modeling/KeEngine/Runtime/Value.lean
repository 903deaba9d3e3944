/-
Fact values and the coercions the executor applies to them. `f64` is a parameter: a carrier with
the operations the code uses. Nothing is assumed of it here; a result that needs a law of decimal
parsing or of float equality names it.
-/
import KeEngine.Core.CanonicalLaws

namespace Ke.Runtime

open Ke Wire

/-- The operations of `f64` that the runtime uses. -/
structure Floats where
  F : Type
  /-- `i as f64` -/
  ofInt : Int → F
  /-- `s.parse::<f64>().unwrap_or(NAN)` -/
  parse : String → F
  eq : F → F → Bool
  partialCmp : F → F → Option Ordering
  isSignNegative : F → Bool
  /-- `{:?}`, the shortest round-trip text -/
  debug : F → String

/-- A fact: a JSON scalar kind or a list. -/
inductive FactValue (F : Type)
  | null
  | bool (b : Bool)
  | int (i : I128)
  | float (f : F)
  | str (s : String)
  | list (items : List (FactValue F))

/-- A fact set: field to value, one value a field. -/
abbrev Facts (F : Type) := List (String × FactValue F)

/-- An absent field is `null`. -/
def lookup {F : Type} (facts : Facts F) (field : String) : FactValue F := (List.lookup field facts).getD .null

namespace FactValue

def isPresent {F : Type} : FactValue F → Bool
  | .null => false
  | _ => true

/-- The number of a value that takes part in the numeric tower; a `bool` is an `int`. -/
def asNumber (X : Floats) : FactValue X.F → Option X.F
  | .int i => some (X.ofInt i.val)
  | .float f => some f
  | .bool b => some (if b then X.ofInt 1 else X.ofInt 0)
  | _ => none

end FactValue

/-! ## Decimal text -/

/-- `n` zeros. -/
def zeros (n : Nat) : List Char := List.replicate n '0'

/-- The characters of an exact decimal: an integer with its zeros, or digits around a point. -/
def decimalChars (mantissa : I128) (scale : I8) : List Char :=
  let sign := if mantissa.val < 0 then ['-'] else []
  let digits := Nat.toDigits 10 mantissa.val.natAbs
  if scale.val ≤ 0 then sign ++ digits ++ zeros (-scale.val).toNat
  else
    let scale := scale.val.toNat
    if digits.length ≤ scale then sign ++ ['0', '.'] ++ zeros (scale - digits.length) ++ digits
    else
      let point := digits.length - scale
      sign ++ digits.take point ++ ['.'] ++ digits.drop point

def decimalToString (mantissa : I128) (scale : I8) : String := String.ofList (decimalChars mantissa scale)

def decimalToF64 (X : Floats) (mantissa : I128) (scale : I8) : X.F := X.parse (decimalToString mantissa scale)

def operandAsNumber (X : Floats) : ScalarValue → Option X.F
  | .decimal mantissa scale => some (decimalToF64 X mantissa scale)
  | .bool b => some (if b then X.ofInt 1 else X.ofInt 0)
  | _ => none

/-! ## Python's `str()` -/

def pythonFloatStr (X : Floats) (f : X.F) : String :=
  if X.eq f (X.ofInt 0) then (if X.isSignNegative f then "-0.0" else "0.0") else X.debug f

def pythonBoolStr (b : Bool) : String := if b then "True" else "False"

def pythonListRepr (parts : List String) : String := "[" ++ String.intercalate ", " parts ++ "]"

/-- `str()` of a fact: the left side of a membership test. Elements of a list are shown by `repr`,
which quotes text. -/
def pythonStrFact (X : Floats) : FactValue X.F → String
  | .null => "None"
  | .bool b => pythonBoolStr b
  | .int i => toString i.val
  | .float f => pythonFloatStr X f
  | .str s => s
  | .list items => pythonListRepr (reprs items)
where
  reprs : List (FactValue X.F) → List String
    | [] => []
    | .str s :: vs => ("'" ++ s ++ "'") :: reprs vs
    | v :: vs => pythonStrFact X v :: reprs vs

/-- A decimal of scale at most zero came from an integer literal, any other from a float literal. -/
def pythonStrDecimal (X : Floats) (mantissa : I128) (scale : I8) : String :=
  if scale.val ≤ 0 then decimalToString mantissa scale else pythonFloatStr X (decimalToF64 X mantissa scale)

/-- `str()` of an operand, with the text `dec` of a decimal. -/
def scalarStr (dec : I128 → I8 → String) : ScalarValue → String
  | .str s => s
  | .bool b => pythonBoolStr b
  | .decimal mantissa scale => dec mantissa scale
  | .list items => pythonListRepr (reprs items)
where
  reprs : List ScalarValue → List String
    | [] => []
    | .str s :: vs => ("'" ++ s ++ "'") :: reprs vs
    | v :: vs => scalarStr dec v :: reprs vs

/-- `str()` of an operand: an element of the value set of a membership test. -/
def pythonStrScalar (X : Floats) : ScalarValue → String := scalarStr (pythonStrDecimal X)

end Ke.Runtime
