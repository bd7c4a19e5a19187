/-
Values. Arrays, hashes and functions are references into the store, so that two names can share one
of them; all other values stand for themselves. What of a value decides where it is found in a hash is its
key; a string is found by its digest.
-/
import MonkeyLang.Value.Error

namespace MonkeyLang

structure FrameRef where
  index : Nat
deriving DecidableEq, Repr, Inhabited

structure ArrayRef where
  index : Nat
deriving DecidableEq, Repr, Inhabited

structure HashRef where
  index : Nat
deriving DecidableEq, Repr, Inhabited

structure ClosureRef where
  index : Nat
deriving DecidableEq, Repr, Inhabited

inductive Value where
  | int (n : Int64)
  | bool (b : Bool)
  | null
  | string (s : String)
  | array (r : ArrayRef)
  | hash (r : HashRef)
  | function (r : ClosureRef)
  | builtin (b : Builtin)
  | error (e : RuntimeError)
deriving DecidableEq, Repr, Inhabited

namespace Value

def type : Value → ValueType
  | int _ => .integer
  | bool _ => .boolean
  | null => .null
  | string _ => .string
  | array _ => .array
  | hash _ => .hash
  | function _ => .function
  | builtin _ => .builtin
  | error _ => .error

/-- Every value but `false` and `null` counts as true. -/
def truthy : Value → Bool
  | null => false
  | bool b => b
  | _ => true

/-- The identity behind `==`: arrays, hashes and functions by reference, other values by content.
An error is not even identical to itself. -/
def identical : Value → Value → Bool
  | error _, _ => false
  | a, b => a == b

theorem identical_iff {a b : Value} : a.identical b = true ↔ a = b ∧ a.type ≠ .error := by
  cases a <;> simp [identical, type]

end Value

/-! ## Hash keys -/

inductive HashKey where
  | integer (n : Int64)
  | boolean (b : Bool)
  | string (digest : UInt64)
deriving DecidableEq, Repr, Inhabited

def HashKey.text : HashKey → String
  | integer n => "INTEGER@" ++ Text.signedDecimal n.toInt
  | boolean b => "BOOLEAN@" ++ (if b then "1" else "0")
  | string d => "STRING@" ++ Text.decimal d.toNat

/-- Integers, booleans and strings can be keys. -/
def Value.key? : Value → Option HashKey
  | int n => some (.integer n)
  | bool b => some (.boolean b)
  | string s => some (.string (Text.digest (Text.bytesOf s)))
  | _ => none

end MonkeyLang
