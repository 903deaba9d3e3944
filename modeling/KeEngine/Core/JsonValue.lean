/-
`serde_json::Value`: what JSON text is read as. A whole number is one that an `i64` or a `u64` holds, any
other number a float; the keys of an object are in the order of the text, each there once.
-/
import KeEngine.Core.Ir

namespace Ke

/-- A whole number of an `i64` or a `u64`. -/
structure WholeNumber where
  val : Int
  lo : -9223372036854775808 ≤ val
  hi : val ≤ 18446744073709551615

inductive JsonValue (F : Type)
  | null
  | bool (b : Bool)
  | whole (n : WholeNumber)
  | float (f : F)
  | str (s : String)
  | array (items : List (JsonValue F))
  | object (entries : List (String × JsonValue F))

namespace JsonValue

variable {F : Type}

def asObject : JsonValue F → Option (List (String × JsonValue F))
  | .object entries => some entries
  | _ => none

def asArray : JsonValue F → Option (List (JsonValue F))
  | .array items => some items
  | _ => none

def asStr : JsonValue F → Option String
  | .str s => some s
  | _ => none

@[simp] theorem asObject_eq_some {v : JsonValue F} {entries : List (String × JsonValue F)} :
    v.asObject = some entries ↔ v = .object entries := by
  cases v <;> simp [asObject]

@[simp] theorem asArray_eq_some {v : JsonValue F} {items : List (JsonValue F)} : v.asArray = some items ↔
    v = .array items := by
  cases v <;> simp [asArray]

/-- Induction over a JSON value with a hypothesis for each item of an array and each value of an object. -/
theorem ind {p : JsonValue F → Prop} (null : p .null) (bool : ∀ b, p (.bool b)) (whole : ∀ n, p (.whole n))
    (float : ∀ f, p (.float f)) (str : ∀ s, p (.str s)) (array : ∀ items, (∀ v ∈ items, p v) → p (.array items))
    (object : ∀ entries : List (String × JsonValue F), (∀ kv ∈ entries, p kv.2) → p (.object entries)) : ∀ v, p v := by
  intro v
  refine @JsonValue.rec F p (fun items => ∀ v ∈ items, p v) (fun entries => ∀ kv ∈ entries, p kv.2) (fun kv => p kv.2)
    null bool whole float str array object ?_ ?_ ?_ ?_ ?_ v
  · intro v h; cases h
  · intro w ws hw hws v hv
    rcases List.mem_cons.1 hv with rfl | hv
    · exact hw
    · exact hws v hv
  · intro kv h; cases h
  · intro w ws hw hws kv hkv
    rcases List.mem_cons.1 hkv with rfl | hkv
    · exact hw
    · exact hws kv hkv
  · intro k v hv
    exact hv

end JsonValue

/-- A whole number as an `i128`. -/
def WholeNumber.toI128 (n : WholeNumber) : I128 :=
  ⟨n.val, Int.le_trans (by decide) n.lo, Int.lt_of_le_of_lt n.hi (by decide)⟩

end Ke
