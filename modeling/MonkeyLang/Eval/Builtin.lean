/-
The built-in functions, on a list of arguments of any length.
-/
import MonkeyLang.Eval.Basic

namespace MonkeyLang

/-- A length as an integer value; the largest integer stands for what lies beyond it. -/
def lengthValue (n : Nat) : Value := .int (Int64.ofNat (Nat.min n (Text.integerLimit - 1)))

namespace Machine

/-- Prints a value on a line of its own. -/
def print : Machine → Value → Machine
  | ⟨store, output⟩, v => ⟨store, output ++ store.text v ++ "\n"⟩

def printAll (m : Machine) (vs : List Value) : Machine := vs.foldl print m

end Machine

namespace Builtin

/-- The array that a function of one array is called on. -/
def soleArray (b : Builtin) : List Value → Except RuntimeError ArrayRef
  | [.array r] => .ok r
  | [v] => .error (.notAnArray b v.type)
  | args => .error (.argumentCount 1 args.length)

def lenOf (s : Store) : List Value → Except RuntimeError Value
  | [.string t] => .ok (lengthValue t.length)
  | [.array r] => .ok (lengthValue (s.elements r).size)
  | [v] => .error (.noLength v.type)
  | args => .error (.argumentCount 1 args.length)

def headOf (s : Store) (args : List Value) : Except RuntimeError Value := do
  let r ← soleArray head args
  return (s.elements r).toList.head?.getD .null

def lastOf (s : Store) (args : List Value) : Except RuntimeError Value := do
  let r ← soleArray last args
  return (s.elements r).back?.getD .null

/-- A new array of all elements but the first; null for an array without elements. -/
def tailOf (s : Store) (args : List Value) : Except RuntimeError Value × Store :=
  match soleArray tail args with
  | .error e => (.error e, s)
  | .ok r =>
    match (s.elements r).toList with
    | [] => (.ok .null, s)
    | _ :: rest =>
      let (t, s) := s.newArray rest.toArray
      (.ok (.array t), s)

/-- The same array with one more element, seen by everyone who holds it. -/
def pushTo (s : Store) : List Value → Except RuntimeError Value × Store
  | [.array r, v] => (.ok (.array r), s.append r v)
  | [v, w] => (.error (.cannotAppend v.type w.type), s)
  | args => (.error (.argumentCount 2 args.length), s)

/-- The outcome of a built-in function and the machine behind it. -/
def apply (b : Builtin) (args : List Value) : Machine → Except RuntimeError Value × Machine
  | ⟨store, output⟩ =>
    match b with
    | len => (lenOf store args, ⟨store, output⟩)
    | head => (headOf store args, ⟨store, output⟩)
    | tail =>
      let (r, store) := tailOf store args
      (r, ⟨store, output⟩)
    | last => (lastOf store args, ⟨store, output⟩)
    | push =>
      let (r, store) := pushTo store args
      (r, ⟨store, output⟩)
    | puts => (.ok .null, Machine.printAll ⟨store, output⟩ args)

end Builtin

def Eval.builtin (b : Builtin) (args : List Value) : Eval Value := fun m =>
  let (r, m) := b.apply args m
  match r with
  | .ok v => some (.ok v, m)
  | .error e => some (.error (.failed e), m)

end MonkeyLang
